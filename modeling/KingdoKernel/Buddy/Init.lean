import KingdoKernel.Buddy.Ops

/-!
# Initialisation of the buddy allocator

`initBuddy_spec`: whenever the managed region contains a page at a multiple of the largest chunk size
(`HasAlignedPage`), `init_buddy` returns a state that satisfies the invariant with nothing held.

`Filled s S` is the invariant of the loops of `populate_page`: the chunks listed so far tile `S`. The
forward loop adds chunks of the largest order only, since the region ends at a multiple of their size
(`populateForward_spec`). The backward loop writes the distance to the first page in binary: before
order `n` the distance left is below `2 ^ (n + 1)`, so that each order is used at most once
(`populateBackward_spec`), which is also why no two of the chunks are buddies.
-/

namespace KingdoKernel.Buddy
open Tiles Tiles.Block

/-- The managed region contains a page at a multiple of 4 MB. -/
def HasAlignedPage (s : Buddy) : Prop :=
  ∃ a, 2 ^ 22 ∣ a ∧ s.startAddr ≤ a ∧ a < (s.startAddr + s.size) % 2 ^ 64

/-- The bounds that `init_buddy` computes, for every `img_end`. -/
lemma initRegion_geometry {imgEnd : ℕ} (h : HasAlignedPage (initRegion imgEnd)) :
    Geometry (initRegion imgEnd) := by
  obtain ⟨a, -, h1, h2⟩ := h
  have hF : freePhysMemStart imgEnd % 4096 = 0 := by
    simp only [freePhysMemStart, roundUp, pageSize]
    omega
  have hE : availablePhysMemEnd = 0x3F000000 := by
    norm_num [availablePhysMemEnd, roundDown, physMemEnd, pageSize]
  have eS : (initRegion imgEnd).startAddr = physToVirt (freePhysMemStart imgEnd) := rfl
  have eZ : (initRegion imgEnd).size =
      subWord availablePhysMemEnd (freePhysMemStart imgEnd) := rfl
  have eN : (initRegion imgEnd).pageNum = (initRegion imgEnd).size / 4096 := rfl
  have eB : (initRegion imgEnd).base = (initRegion imgEnd).startAddr / 4096 := rfl
  rw [physToVirt, kbase] at eS
  rw [subWord, hE] at eZ
  refine ⟨?_, ?_, ?_, ?_⟩
  · rw [eB]
    omega
  · rw [eN]
    omega
  · omega
  · rw [eB, eN]
    omega

/-- The chunks listed so far tile `S`; every other field is as `memset` left it. -/
structure Filled (s : Buddy) (S : Set ℕ) : Prop where
  tiling : Tiling s.base s.freeBlocks S
  order : ∀ b ∈ s.freeBlocks, (s.pages b.start).order = b.order
  nodup : ∀ k < buddyMaxOrder, (s.freeLists k).freeList.Nodup
  count : ∀ k < buddyMaxOrder, (s.freeLists k).nrFree = (s.freeLists k).freeList.length
  unflagged : ∀ p, (s.pages p).allocated = 0
  slab : ∀ p, (s.pages p).slab = 0
  noBuddies : NoBuddies s.base (buddyMaxOrder - 1) s.freeBlocks

/-- Only the bounds of the region are compared. -/
def SameBounds (s s' : Buddy) : Prop :=
  s'.startAddr = s.startAddr ∧ s'.size = s.size ∧ s'.pageArrry = s.pageArrry ∧
    s'.pageNum = s.pageNum

/-- The bounds of a state are its own. -/
lemma SameBounds.refl (s : Buddy) : SameBounds s s := ⟨rfl, rfl, rfl, rfl⟩

/-- Equal bounds are passed on. -/
lemma SameBounds.trans {s s' s'' : Buddy} (h : SameBounds s s') (h' : SameBounds s' s'') :
    SameBounds s s'' :=
  ⟨h'.1.trans h.1, h'.2.1.trans h.2.1, h'.2.2.1.trans h.2.2.1, h'.2.2.2.trans h.2.2.2⟩

/-- `populate_chunk` keeps the bounds. -/
lemma SameBounds.populateChunk (s : Buddy) (k p : ℕ) : SameBounds s (s.populateChunk k p) :=
  ⟨rfl, rfl, rfl, rfl⟩

/-- Equal bounds have the same first page frame. -/
lemma SameBounds.base {s s' : Buddy} (h : SameBounds s s') : s'.base = s.base := by
  rw [Buddy.base, Buddy.base, h.1]

/-- Equal bounds give pages the same addresses. -/
lemma SameBounds.pageToVirt {s s' : Buddy} (h : SameBounds s s') (p : ℕ) :
    s'.pageToVirt p = s.pageToVirt p := by
  rw [Buddy.pageToVirt, Buddy.pageToVirt, h.1]

/-- One iteration of the loops of `populate_page`. -/
lemma Filled.populateChunk {s : Buddy} {S : Set ℕ} (h : Filled s S) {p k : ℕ}
    (hk : k < buddyMaxOrder) (hal : Aligned s.base ⟨p, k⟩)
    (hnew : ∀ n ∈ (⟨p, k⟩ : Block).pages, n ∉ S)
    (hnb : ∀ c ∈ s.freeBlocks, c.order = k → k < buddyMaxOrder - 1 →
      slot s.base (k + 1) c.start ≠ slot s.base (k + 1) p) :
    Filled (s.populateChunk k p) {n | n ∈ (⟨p, k⟩ : Block).pages ∨ n ∈ S} := by
  have hF : (s.populateChunk k p).freeBlocks = insert ⟨p, k⟩ s.freeBlocks :=
    freeBlocks_addFree (s := s.setPage p ⟨0, k, 0⟩) hk
  have hpg : ∀ q, (s.populateChunk k p).pages q = if q = p then ⟨0, k, 0⟩ else s.pages q :=
    fun q => pages_setPage s p ⟨0, k, 0⟩ q
  have hmeet : ∀ b ∈ s.freeBlocks, ∀ n ∈ (⟨p, k⟩ : Block).pages, n ∉ b.pages :=
    fun b hb n hn hnb' => hnew n hn (h.tiling.subset hb hnb')
  refine ⟨⟨?_, ?_, ?_⟩, ?_, ?_, ?_, ?_, ?_, ?_⟩
  · rw [hF]
    rintro b (rfl | hb)
    · exact hal
    · exact h.tiling.aligned b hb
  · intro n
    rw [hF]
    constructor
    · rintro (hn | hn)
      · exact ⟨_, Set.mem_insert _ _, hn⟩
      · obtain ⟨b, hb, hnb'⟩ := (h.tiling.cover n).1 hn
        exact ⟨b, Set.mem_insert_of_mem _ hb, hnb'⟩
    · rintro ⟨b, rfl | hb, hn⟩
      · exact .inl hn
      · exact .inr (h.tiling.subset hb hn)
  · rw [hF]
    rintro b (rfl | hb) c (rfl | hc) n hnb' hnc
    · rfl
    · exact (hmeet c hc n hnb' hnc).elim
    · exact (hmeet b hb n hnc hnb').elim
    · exact h.tiling.disjoint b hb c hc n hnb' hnc
  · rw [hF]
    rintro b (rfl | hb)
    · rw [hpg, if_pos rfl]
    · have hne : b.start ≠ p := fun e => hmeet b hb p (start_mem ⟨p, k⟩) (e ▸ b.start_mem)
      rw [hpg, if_neg hne]
      exact h.order b hb
  · intro j hj
    rw [Buddy.populateChunk, freeLists_addFree]
    split_ifs with e
    · subst e
      exact List.nodup_cons.2
        ⟨fun hp => hmeet ⟨p, j⟩ ⟨hk, hp⟩ p (start_mem ⟨p, j⟩) (start_mem ⟨p, j⟩), h.nodup j hj⟩
    · exact h.nodup j hj
  · intro j hj
    rw [Buddy.populateChunk, freeLists_addFree]
    split_ifs with e
    · subst e
      simp [h.count j hj]
    · exact h.count j hj
  · intro q
    rw [hpg]
    split_ifs
    · rfl
    · exact h.unflagged q
  · intro q
    rw [hpg]
    split_ifs
    · rfl
    · exact h.slab q
  · rw [hF]
    rintro b hb c hc ho hlt hs
    rcases hb with rfl | hb <;> rcases hc with rfl | hc
    · rfl
    · exact (hnb c hc ho.symm hlt hs.symm).elim
    · have ho' : b.order = k := ho
      rw [ho'] at hlt hs
      exact (hnb b hb ho hlt hs).elim
    · exact h.noBuddies b hb c hc ho hlt hs

/-- The forward loop does nothing once it has reached the end. -/
lemma populateForward_done {s : Buddy} {n page last : ℕ} (h : last ≤ page) :
    s.populateForward n page last = s := by
  induction n with
  | zero => rfl
  | succ n ih =>
    have e : s.fillForward n page last = (page, s) := by
      have hpos : 0 < buddyChunkPagesCount n := Nat.two_pow_pos n
      rw [fillForward, if_neg (by omega)]
    rw [populateForward, e]
    exact ih

/-- The forward loop at the largest order fills up to the end of the region. -/
lemma fillForward_spec {s : Buddy} {al page last m : ℕ} (hm : page + m * 1024 = last)
    (hle : al ≤ page) (hal : 2 ^ 10 ∣ s.base + page) (h : Filled s (Set.Ico al page)) :
    ∃ s', s.fillForward 10 page last = (last, s') ∧ Filled s' (Set.Ico al last) ∧
      SameBounds s s' ∧ ((∀ b ∈ s.freeBlocks, b.order = 10) → ∀ b ∈ s'.freeBlocks, b.order = 10) := by
  induction m generalizing s page with
  | zero =>
    have e : page = last := by omega
    subst e
    refine ⟨s, ?_, h, SameBounds.refl s, fun hb => hb⟩
    rw [fillForward, if_neg (by simp only [buddyChunkPagesCount]; omega)]
  | succ m ih =>
    have hstep : Filled (s.populateChunk 10 page) (Set.Ico al (page + 1024)) := by
      have hset : Set.Ico al (page + 1024) =
          {n | n ∈ (⟨page, 10⟩ : Block).pages ∨ n ∈ Set.Ico al page} := by
        ext n
        simp only [mem_pages, Set.mem_Ico, Set.mem_ofPred_eq]
        omega
      rw [hset]
      refine h.populateChunk (by decide) hal ?_ (fun c _ _ hlt => absurd hlt (by decide))
      intro n hn hS
      exact absurd hS.2 (not_lt.2 hn.1)
    obtain ⟨s', e, hf, hb, ho⟩ := @ih (s.populateChunk 10 page) (page + 1024)
      (by omega) (by omega) (by
        show 2 ^ 10 ∣ s.base + (page + 1024)
        rw [← Nat.add_assoc]
        exact hal.add (dvd_refl _)) hstep
    refine ⟨s', ?_, hf, (SameBounds.populateChunk s 10 page).trans hb, fun hs => ho ?_⟩
    · rw [fillForward, if_pos (by simp only [buddyChunkPagesCount]; omega)]
      exact e
    · intro b hb
      rw [Buddy.populateChunk, freeBlocks_addFree (by decide)] at hb
      rcases hb with rfl | hb
      · rfl
      · exact hs b hb

/-- The backward loop: with less than `2 ^ n` pages left, the orders below `n` fill the rest. -/
lemma populateBackward_spec {s : Buddy} {n page last : ℕ} (hn : n < buddyMaxOrder)
    (hlt : page < 2 ^ n) (hle : page ≤ last) (hal : 2 ^ n ∣ s.base + page)
    (h : Filled s (Set.Ico page last)) (hbig : ∀ b ∈ s.freeBlocks, n ≤ b.order) :
    Filled (s.populateBackward n page 0) (Set.Iio last) ∧
      SameBounds s (s.populateBackward n page 0) := by
  induction n generalizing s page with
  | zero =>
    have e : page = 0 := by simpa using hlt
    subst e
    refine ⟨?_, SameBounds.refl s⟩
    have hset : Set.Iio last = Set.Ico 0 last := by
      ext n
      simp
    rw [hset]
    exact h
  | succ n ih =>
    have hpow : 2 ^ (n + 1) = 2 * 2 ^ n := by rw [pow_succ, Nat.mul_comm]
    have hcnt : buddyChunkPagesCount n = 2 ^ n := rfl
    have hal' : 2 ^ n ∣ s.base + page := (pow_dvd_pow 2 (Nat.le_succ n)).trans hal
    by_cases hge : 2 ^ n ≤ page
    · -- this order is used once, at `page - 2 ^ n`
      have hlow : 2 ^ n ∣ s.base + (page - 2 ^ n) := by
        have e : s.base + page = s.base + (page - 2 ^ n) + 2 ^ n := by omega
        rw [e] at hal'
        exact (Nat.dvd_add_left (dvd_refl _)).1 hal'
      have hfill : s.fillBackward n page 0 =
          (page - 2 ^ n, s.populateChunk n (page - 2 ^ n)) := by
        rw [fillBackward, if_pos (by omega), fillBackward, if_neg (by omega), hcnt]
      have hstep : Filled (s.populateChunk n (page - 2 ^ n)) (Set.Ico (page - 2 ^ n) last) := by
        have hset : Set.Ico (page - 2 ^ n) last =
            {m | m ∈ (⟨page - 2 ^ n, n⟩ : Block).pages ∨ m ∈ Set.Ico page last} := by
          ext m
          simp only [mem_pages, Set.mem_Ico, Set.mem_ofPred_eq]
          omega
        rw [hset]
        refine h.populateChunk (by omega) hlow ?_ ?_
        · intro m hm hS
          have h1 := hm.2
          have h2 := hS.1
          simp only at h1
          omega
        · intro c hc hcn _ _
          have := hbig c hc
          omega
      have hbig' : ∀ b ∈ (s.populateChunk n (page - 2 ^ n)).freeBlocks, n ≤ b.order := by
        intro b hb
        rw [Buddy.populateChunk, freeBlocks_addFree (by omega)] at hb
        rcases hb with rfl | hb
        · exact le_rfl
        · exact Nat.le_of_succ_le (hbig b hb)
      rw [populateBackward, hfill]
      obtain ⟨h1, h2⟩ := @ih (s.populateChunk n (page - 2 ^ n)) (page - 2 ^ n)
        (by omega) (by omega) (by omega) hlow hstep hbig'
      exact ⟨h1, (SameBounds.populateChunk _ _ _).trans h2⟩
    · have hfill : s.fillBackward n page 0 = (page, s) := by
        rw [fillBackward, if_neg (by omega)]
      rw [populateBackward, hfill]
      exact ih (by omega) (by omega) hle hal' h fun b hb => Nat.le_of_succ_le (hbig b hb)

/-- With every page listed, the invariant holds and nothing is held. -/
lemma Filled.inv {s : Buddy} (hg : Geometry s) (h : Filled s (Set.Iio s.pageNum)) :
    Inv s ∅ (heads ∅) := by
  refine ⟨hg, ?_, fun b hb => hb.elim, fun b hb => hb.elim, ?_, h.nodup, h.count, ?_,
    fun p _ _ => h.unflagged p, h.noBuddies⟩
  · rw [Set.union_empty]
    exact h.tiling
  · rintro b (hb | hb)
    · exact h.order b hb
    · exact hb.elim
  · rintro p - ⟨b, hb, -⟩
    exact hb.elim

/-- The first page at a multiple of 4 MB, as `populate_page` finds it. -/
lemma firstAlignedPage_spec {s : Buddy} (hg : Geometry s) (h : HasAlignedPage s) :
    ∃ al, s.virtToPage (roundUp (s.pageToVirt 0) (buddyChunkSize (buddyMaxOrder - 1))) = some al ∧
      al < s.pageNum ∧ al < 2 ^ 10 ∧ 2 ^ 10 ∣ s.base + al := by
  obtain ⟨a, ha, h1, h2⟩ := h
  rw [Nat.mod_eq_of_lt hg.bound] at h2
  have hst := hg.start
  have hsz := hg.size
  have hbd := hg.bound
  have hlast := hg.last
  have e : roundUp (s.pageToVirt 0) (buddyChunkSize (buddyMaxOrder - 1)) =
      (s.startAddr + 4194303) % 2 ^ 64 / 4194304 * 4194304 := by
    simp [roundUp, pageToVirt, buddyChunkSize, buddyMaxOrder]
  have hnw : s.startAddr + 4194303 < 2 ^ 64 := by omega
  rw [e, Nat.mod_eq_of_lt hnw]
  refine ⟨_, hg.virtToPage_of_mem (by omega) (by omega), ?_, ?_, ?_⟩
  · omega
  · omega
  · omega

/-- `init_buddy` establishes the invariant with nothing held. -/
lemma initBuddy_spec {imgEnd : ℕ} (h : HasAlignedPage (initRegion imgEnd)) :
    ∃ s, initBuddy imgEnd = .ok s ∧ Inv s ∅ (heads ∅) ∧ SameBounds (initRegion imgEnd) s ∧
      ∀ p, (s.pages p).slab = 0 := by
  have hg := initRegion_geometry h
  obtain ⟨al, e, hal, hal2, hdvd⟩ := firstAlignedPage_spec hg h
  generalize hr : initRegion imgEnd = r at *
  have hempty : Filled r (Set.Ico al al) := by
    have hl : ∀ k, r.freeLists k = ⟨[], 0⟩ := fun k => by
      rw [← hr]
      rfl
    have hp : ∀ p, r.pages p = ⟨0, 0, 0⟩ := fun p => by
      rw [← hr]
      rfl
    have hF : ∀ b, b ∉ r.freeBlocks := by
      intro b hb
      rw [mem_freeBlocks, hl] at hb
      exact absurd hb.2 List.not_mem_nil
    refine ⟨⟨fun b hb => (hF b hb).elim, ?_, fun b hb => (hF b hb).elim⟩,
      fun b hb => (hF b hb).elim, ?_, ?_, ?_, ?_, fun b hb => (hF b hb).elim⟩
    · intro n
      simp only [Set.Ico_self, Set.mem_empty_iff_false, false_iff, not_exists, not_and]
      exact fun b hb => (hF b hb).elim
    · intro k _
      rw [hl]
      exact List.nodup_nil
    · intro k _
      rw [hl]
      rfl
    · intro p
      rw [hp]
    · intro p
      rw [hp]
  have hm : al + (r.pageNum - al) / 1024 * 1024 = r.pageNum := by
    have := hg.last
    omega
  obtain ⟨s1, e1, hf1, hb1, ho1⟩ := fillForward_spec hm le_rfl hdvd hempty
  have ho1' : ∀ b ∈ s1.freeBlocks, 10 ≤ b.order := by
    refine fun b hb => (ho1 ?_ b hb).ge
    intro c hc
    rw [mem_freeBlocks, ← hr] at hc
    exact absurd hc.2 List.not_mem_nil
  have hfwd : r.populateForward buddyMaxOrder al (0 + r.pageNum) = s1 := by
    show r.populateForward 11 al (0 + r.pageNum) = s1
    rw [Nat.zero_add, populateForward, e1]
    exact populateForward_done le_rfl
  obtain ⟨hf2, hb2⟩ := populateBackward_spec (s := s1) (n := 10)
    (by decide) hal2 hal.le (by rw [hb1.base]; exact hdvd) hf1 ho1'
  have hb : SameBounds r (s1.populateBackward 10 al 0) := hb1.trans hb2
  refine ⟨s1.populateBackward 10 al 0, ?_, ?_, hb, hf2.slab⟩
  · have hlt : ¬ r.descriptorAddr (some (0 + r.pageNum)) ≤ r.descriptorAddr (some al) := by
      simp only [descriptorAddr, sizeofPage]
      omega
    rw [initBuddy, hr, populatePage, e, populateFrom, if_neg hlt]
    simp only [hfwd]
    rfl
  · refine Filled.inv (hg.congr hb.1 hb.2.1 hb.2.2.2) ?_
    rw [hb.2.2.2]
    exact hf2

end KingdoKernel.Buddy
