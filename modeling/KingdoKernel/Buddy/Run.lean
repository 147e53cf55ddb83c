import KingdoKernel.Buddy.Init

/-!
# Runs of the buddy allocator

The allocator as a machine: `Op.getPages k` calls `buddy_get_pages(k)` with `0 <= k <= 10`,
`Op.freePages p` calls `buddy_free_pages` on the head of a chunk that is outstanding. The state carries
the outstanding chunks with the orders they were requested with.

* `buddy_run_consistent`: in every state of every run the pages are partitioned into the free and the
  outstanding chunks, the lists, counters and descriptors agree with that partition (`Consistent`), and
  no call faults.
* `free_lists_determined`: the free lists are, as sets, a function of the outstanding chunks alone: they
  hold the maximal aligned blocks of the free pages (`MaximalFree`).
* `get_pages_complete`: `buddy_get_pages` fails only when the free pages contain no aligned run of the
  size asked for.
-/

namespace KingdoKernel.Buddy
open Tiles Tiles.Block

/-- The allocator and the chunks its callers hold. -/
structure Sys where
  buddy : Buddy
  out : List Block

/-- The calls of the allocator's interface. -/
inductive Op where
  | getPages (order : ℕ)
  | freePages (page : ℕ)
deriving DecidableEq, Repr

/-- The allocator driven by its callers. -/
def machine : Machine Fault Sys Op (Option ℕ) where
  enabled s op :=
    match op with
    | .getPages order => order ≤ 10
    | .freePages page => ∃ b ∈ s.out, b.start = page
  exec s op :=
    match op with
    | .getPages order => do
      let (page, buddy) ← s.buddy.buddyGetPages order
      match page with
      | none => pure (none, ⟨buddy, s.out⟩)
      | some page => pure (some page, ⟨buddy, ⟨page, order⟩ :: s.out⟩)
    | .freePages page => do
      let buddy ← s.buddy.buddyFreePages page
      pure (none, ⟨buddy, s.out.filter fun b => b.start ≠ page⟩)

/-- The chunks held by the callers. -/
def Sys.held (s : Sys) : Set Block := {b | b ∈ s.out}

/-- The invariant of runs from a state with the bounds of `r`. -/
structure Good (r : Buddy) (s : Sys) : Prop where
  inv : Inv s.buddy s.held (heads s.held)
  distinct : s.out.Nodup
  bounds : SameBounds r s.buddy

/-- A change of lists and descriptors keeps the bounds. -/
lemma Frame.sameBounds {s s' : Buddy} (h : Frame s s') : SameBounds s s' :=
  ⟨h.startAddr, h.size, h.pageArrry, h.pageNum⟩

/-- A call of `buddy_get_pages` in a run. -/
lemma Good.getPages {r : Buddy} {s : Sys} (h : Good r s) {k : ℕ} (hk : k ≤ 10) :
    (machine.exec s (.getPages k) = .ok (none, s) ∧ s.buddy.Exhausted k) ∨
    ∃ p t, machine.exec s (.getPages k) = .ok (some p, ⟨t, ⟨p, k⟩ :: s.out⟩) ∧
      Good r ⟨t, ⟨p, k⟩ :: s.out⟩ ∧
      s.buddy.lists.pop (buddyMaxOrder - k) k = some (p, t.lists) := by
  have hk' : k < buddyMaxOrder := Nat.lt_succ_of_le hk
  rcases buddyGetPages_pop hk' h.inv with ⟨e, hex⟩ | ⟨p, t, e, hf, hH, hi, hpop⟩
  · left
    refine ⟨?_, hex⟩
    simp only [machine, e]
    rfl
  · right
    refine ⟨p, t, ?_, ⟨?_, ?_, h.bounds.trans hf.sameBounds⟩, hpop⟩
    · simp only [machine, e]
      rfl
    · have hset : (Sys.mk t (⟨p, k⟩ :: s.out)).held = insert ⟨p, k⟩ s.held := by
        ext b
        simp [Sys.held]
      rw [hset]
      exact hi
    · exact List.nodup_cons.2 ⟨hH, h.distinct⟩

/-- A call of `buddy_free_pages` in a run. -/
lemma Good.freePages {r : Buddy} {s : Sys} (h : Good r s) {b : Block} (hb : b ∈ s.out) :
    ∃ t, machine.exec s (.freePages b.start) =
        .ok (none, ⟨t, s.out.filter fun c => c.start ≠ b.start⟩) ∧
      Good r ⟨t, s.out.filter fun c => c.start ≠ b.start⟩ ∧
      t.lists = Lists.push s.buddy.base s.buddy.lists (buddyMaxOrder - 1 - b.order)
        b.start b.order := by
  -- the chunk with this head is the only one that the filter drops
  have hset : s.held = insert b {c | c ∈ s.out.filter fun c => c.start ≠ b.start} := by
    ext c
    simp only [Sys.held, Set.mem_ofPred_eq, Set.mem_insert_iff, List.mem_filter, decide_eq_true_eq]
    constructor
    · intro hc
      by_cases e : c.start = b.start
      · exact .inl (h.inv.eq_of_start (.inr hc) (.inr hb) e)
      · exact .inr ⟨hc, e⟩
    · rintro (rfl | hc)
      · exact hb
      · exact hc.1
  have hnot : b ∉ {c | c ∈ s.out.filter fun c => c.start ≠ b.start} := by simp
  have hinv := h.inv
  rw [hset] at hinv
  obtain ⟨t, e, hf, hi, hL⟩ := buddyFreePages_push hinv hnot
  refine ⟨t, ?_, ⟨hi, h.distinct.filter _, h.bounds.trans hf.sameBounds⟩, hL⟩
  simp only [machine, e]
  rfl

/-- Every call of a run returns and keeps the invariant. -/
lemma machine_sound (r : Buddy) : machine.Sound (Good r) := by
  intro s op hs hen
  cases op with
  | getPages k =>
    rcases hs.getPages hen with ⟨e, -⟩ | ⟨p, t, e, hg, -⟩
    · exact ⟨none, s, e, hs⟩
    · exact ⟨some p, _, e, hg⟩
  | freePages p =>
    obtain ⟨b, hb, rfl⟩ := hen
    obtain ⟨t, e, hg, -⟩ := hs.freePages hb
    exact ⟨none, _, e, hg⟩

/-- A run starts from the state `init_buddy` leaves. -/
lemma initBuddy_good {imgEnd : ℕ} (h : HasAlignedPage (initRegion imgEnd)) :
    ∃ s, initBuddy imgEnd = .ok s ∧ Good (initRegion imgEnd) ⟨s, []⟩ := by
  obtain ⟨s, e, hi, hb, -⟩ := initBuddy_spec h
  refine ⟨s, e, ?_, List.nodup_nil, hb⟩
  have hset : (Sys.mk s []).held = ∅ := by
    ext b
    simp [Sys.held]
  rw [hset]
  exact hi

/-! ## Consistency of every reached state -/

/-- What the lists, the counters and the descriptors say about the region. -/
structure Consistent (s : Sys) : Prop where
  /-- every page lies in exactly one chunk, free or outstanding -/
  partition : ∀ p < s.buddy.pageNum,
    ∃! b : Block, (b ∈ s.buddy.freeBlocks ∨ b ∈ s.out) ∧ p ∈ b.pages
  /-- chunks consist of pages of the region -/
  inside : ∀ b : Block, b ∈ s.buddy.freeBlocks ∨ b ∈ s.out →
    b.start + 2 ^ b.order ≤ s.buddy.pageNum
  /-- no outstanding chunk is listed as free -/
  exclusive : ∀ b ∈ s.out, b ∉ s.buddy.freeBlocks
  /-- no chunk is outstanding twice -/
  distinct : s.out.Nodup
  /-- `free_lists[k]` has no repetitions and its members are heads of unallocated chunks of order `k` -/
  listed : ∀ k ≤ 10, (s.buddy.freeLists k).freeList.Nodup ∧
    ∀ p ∈ (s.buddy.freeLists k).freeList,
      (s.buddy.pages p).order = k ∧ (s.buddy.pages p).allocated = 0
  /-- `nr_free` is the length of its list -/
  counted : ∀ k ≤ 10, (s.buddy.freeLists k).nrFree = (s.buddy.freeLists k).freeList.length
  /-- `allocated` marks the heads of the outstanding chunks -/
  flagged : ∀ p < s.buddy.pageNum,
    (s.buddy.pages p).allocated = 1 ↔ ∃ b ∈ s.out, b.start = p
  /-- and `order` is then the order asked for -/
  requested : ∀ b ∈ s.out, (s.buddy.pages b.start).order = b.order
  /-- chunks of order `k` start at multiples of `2 ^ (12 + k)` -/
  aligned : ∀ b : Block, b ∈ s.buddy.freeBlocks ∨ b ∈ s.out →
    2 ^ (12 + b.order) ∣ s.buddy.pageToVirt b.start
  /-- the free and the outstanding pages add up -/
  total : s.buddy.getFreePagesNumsFromBuddy + (s.out.map fun b => 2 ^ b.order).sum =
    s.buddy.pageNum

/-- Alignment of a block is alignment of its address. -/
lemma Geometry.aligned_iff {s : Buddy} (h : Geometry s) {p k : ℕ} :
    Aligned s.base ⟨p, k⟩ ↔ 2 ^ (12 + k) ∣ s.pageToVirt p := by
  have e : s.pageToVirt p = 2 ^ 12 * (s.base + p) := by
    have := h.start
    simp only [pageToVirt, pageSize]
    omega
  rw [e, pow_add, Nat.mul_dvd_mul_iff_left (by norm_num)]
  rfl

/-- The chunks of the free lists, in the order of the lists. -/
def freeChunks (s : Buddy) : List Block :=
  (List.range buddyMaxOrder).flatMap fun k => (s.freeLists k).freeList.map fun p => ⟨p, k⟩

/-- The list of the free chunks has the free blocks. -/
lemma mem_freeChunks {s : Buddy} {b : Block} : b ∈ s.freeChunks ↔ b ∈ s.freeBlocks := by
  obtain ⟨p, k⟩ := b
  simp [freeChunks]

/-- The counters add up to the lengths of the listed chunks. -/
lemma Inv.sum_freeChunks {s : Buddy} {H : Set Block} {A : Set ℕ} (h : Inv s H A) :
    s.getFreePagesNumsFromBuddy = (s.freeChunks.map fun b => 2 ^ b.order).sum := by
  have hl : ∀ k, (((s.freeLists k).freeList.map fun p => Block.mk p k).map
      fun b => 2 ^ b.order).sum = (s.freeLists k).freeList.length * 2 ^ k := by
    intro k
    simp [List.map_map, Function.comp_def, List.map_const']
  rw [getFreePagesNumsFromBuddy, freeChunks, List.map_flatMap, List.flatMap_def, List.sum_flatten,
    List.map_map]
  congr 1
  refine List.map_congr_left fun k hk => ?_
  rw [Function.comp_apply, hl, h.count k (List.mem_range.1 hk), buddyChunkPagesCount]

/-- No free chunk is listed twice. -/
lemma Inv.nodup_freeChunks {s : Buddy} {H : Set Block} {A : Set ℕ} (h : Inv s H A) :
    s.freeChunks.Nodup := by
  refine List.nodup_flatMap.2 ⟨fun k hk => ?_, ?_⟩
  · refine (h.nodup k (List.mem_range.1 hk)).map fun p q e => ?_
    injection e
  · refine List.nodup_range.pairwise_of_forall_ne fun j _ k _ hjk => ?_
    simp only [Function.onFun, List.disjoint_left, List.mem_map, not_exists, not_and]
    rintro b ⟨p, -, rfl⟩ q - e
    injection e with _ e
    exact hjk e.symm

/-- The pages of the free chunks and of the held ones add up to the region. -/
lemma Inv.sum_pages {s : Buddy} {L : List Block} {A : Set ℕ} (h : Inv s {b | b ∈ L} A)
    (hL : L.Nodup) :
    s.getFreePagesNumsFromBuddy + (L.map fun b => 2 ^ b.order).sum = s.pageNum := by
  rw [h.sum_freeChunks, ← List.sum_append, ← List.map_append]
  refine @Tiling.sum_eq s.base _ _ ?_ ?_
  · refine h.nodup_freeChunks.append hL fun b hb hb' => ?_
    exact h.apart b hb' (mem_freeChunks.1 hb)
  · have hset : {b | b ∈ s.freeChunks ++ L} = s.freeBlocks ∪ {b | b ∈ L} := by
      ext b
      rw [Set.mem_ofPred_eq, List.mem_append, mem_freeChunks]
      rfl
    rw [hset]
    exact h.tiling

/-- Held chunks are finitely many. -/
lemma Inv.finite {s : Buddy} {H : Set Block} {A : Set ℕ} (h : Inv s H A) : H.Finite := by
  refine Set.Finite.subset
    ((Finset.range s.pageNum ×ˢ Finset.range buddyMaxOrder).image fun x => Block.mk x.1 x.2).finite_toSet
    fun b hb => ?_
  rw [Finset.mem_coe, Finset.mem_image]
  exact ⟨(b.start, b.order), Finset.mem_product.2 ⟨Finset.mem_range.2 (h.start_lt (.inr hb)),
    Finset.mem_range.2 (h.top b hb)⟩, rfl⟩

/-- The free memory in bytes is 4096 times the number of free pages. -/
lemma getFreeMemSizeFromBuddy_eq (s : Buddy) :
    s.getFreeMemSizeFromBuddy = 4096 * s.getFreePagesNumsFromBuddy := by
  rw [getFreeMemSizeFromBuddy, getFreePagesNumsFromBuddy, ← List.sum_map_mul_left]
  congr 1
  refine List.map_congr_left fun k _ => ?_
  rw [buddyChunkSize, buddyChunkPagesCount, pow_add]
  ring

/-- All memory is free exactly when no chunk is held. -/
lemma Inv.freeMem_iff {s : Buddy} {H : Set Block} {A : Set ℕ} (h : Inv s H A) :
    s.getFreeMemSizeFromBuddy = 4096 * s.pageNum ↔ H = ∅ := by
  have hset : {b | b ∈ h.finite.toFinset.toList} = H := by
    ext b
    simp
  have h' : Inv s {b | b ∈ h.finite.toFinset.toList} A := by
    rw [hset]
    exact h
  have hsum := h'.sum_pages (Finset.nodup_toList _)
  have hnil : H = ∅ ↔ h.finite.toFinset.toList = [] := by simp
  rw [getFreeMemSizeFromBuddy_eq, hnil]
  cases hL : h.finite.toFinset.toList with
  | nil =>
    rw [hL] at hsum
    simp only [List.map_nil, List.sum_nil] at hsum
    exact iff_of_true (by omega) rfl
  | cons b L =>
    rw [hL] at hsum
    simp only [List.map_cons, List.sum_cons] at hsum
    have hpos : 0 < 2 ^ b.order := by positivity
    exact iff_of_false (by omega) (List.cons_ne_nil _ _)

/-- The invariant in terms of the fields of the source. -/
lemma Good.consistent {r : Buddy} {s : Sys} (h : Good r s) : Consistent s := by
  have hi := h.inv
  refine ⟨?_, ?_, hi.apart, h.distinct, ?_, ?_, ?_, ?_, ?_, hi.sum_pages h.distinct⟩
  · intro p hp
    obtain ⟨b, hb, hpb⟩ := (hi.tiling.cover p).1 hp
    exact ⟨b, ⟨hb, hpb⟩, fun c hc => hi.tiling.disjoint c hc.1 b hb p hc.2 hpb⟩
  · exact fun b hb => hi.end_le hb
  · intro k hk
    have hk' : k < buddyMaxOrder := Nat.lt_succ_of_le hk
    refine ⟨hi.nodup k hk', fun p hp => ?_⟩
    have hb : (⟨p, k⟩ : Block) ∈ s.buddy.freeBlocks := ⟨hk', hp⟩
    refine ⟨hi.order _ (.inl hb), hi.unflagged p (hi.start_lt (.inl hb)) ?_⟩
    rintro ⟨c, hc, e⟩
    exact hi.apart c hc (hi.eq_of_start (.inr hc) (.inl hb) e ▸ hb)
  · exact fun k hk => hi.count k (Nat.lt_succ_of_le hk)
  · intro p hp
    constructor
    · intro ha
      by_contra hne
      have := hi.unflagged p hp hne
      omega
    · exact fun hb => hi.flagged p hp hb
  · exact fun b hb => hi.order b (.inr hb)
  · exact fun b hb => hi.geo.aligned_iff.1 (hi.tiling.aligned b hb)

/-- In every reached state the pages are partitioned into free and outstanding chunks, the allocator's
data describe that partition, and every call returns. -/
theorem buddy_run_consistent {imgEnd : ℕ} (h : HasAlignedPage (initRegion imgEnd)) :
    ∃ s₀, initBuddy imgEnd = .ok s₀ ∧ ∀ ops os s, machine.Run ⟨s₀, []⟩ ops os s →
      Consistent s ∧ s.buddy.pageNum = (initRegion imgEnd).pageNum ∧
      ∀ op, machine.enabled s op → ∃ o s', machine.exec s op = .ok (o, s') := by
  obtain ⟨s₀, e, hg⟩ := initBuddy_good h
  refine ⟨s₀, e, fun ops os s r => ?_⟩
  have hs := (machine_sound _).run r hg
  refine ⟨hs.consistent, hs.bounds.2.2.2, fun op hen => ?_⟩
  obtain ⟨o, s', e', -⟩ := machine_sound _ s op hs hen
  exact ⟨o, s', e'⟩

/-- An image that ends 5 MB below the end of memory leaves a region with an aligned page. -/
lemma hasAlignedPage_five_mb : HasAlignedPage (initRegion (physMemEnd - 0x500000)) := by
  refine ⟨kbase + physMemEnd - 0x400000, ?_, ?_, ?_⟩
  · norm_num [kbase, physMemEnd]
  · norm_num [initRegion, freePhysMemStart, availablePhysMemStart, availablePhysMemEnd, roundUp,
      roundDown, subWord, physToVirt, kbase, physMemEnd, pageSize, sizeofPage]
  · norm_num [initRegion, freePhysMemStart, availablePhysMemStart, availablePhysMemEnd, roundUp,
      roundDown, subWord, physToVirt, kbase, physMemEnd, pageSize, sizeofPage]

/-- Where an aligned block of pages is free, the allocator has a chunk of its order or more. -/
lemma Inv.not_exhausted {s : Buddy} {H : Set Block} {A : Set ℕ} (h : Inv s H A) {p k : ℕ}
    (hal : Aligned s.base ⟨p, k⟩) (hk : k ≤ 10) (hend : p + 2 ^ k ≤ s.pageNum)
    (hfree : ∀ c ∈ H, ∀ n ∈ (⟨p, k⟩ : Block).pages, n ∉ c.pages) : ¬ s.Exhausted k := by
  intro hex
  have ht := h.tiling.diff fun b hb hH => h.apart b hH hb
  obtain ⟨b, hb, hkb, -⟩ := ht.exists_super h.noBuddies hal hk fun n hn =>
    ⟨lt_of_lt_of_le hn.2 hend, fun c hc => hfree c hc n hn⟩
  have hnil := hex b.order hkb hb.1
  have hmem := hb.2
  rw [hnil] at hmem
  cases hmem

/-- A region with an aligned page has 1024 pages from it on. -/
lemma HasAlignedPage.block {r s : Buddy} (h : HasAlignedPage r) (hg : Geometry r)
    (hb : SameBounds r s) : ∃ p, 2 ^ 10 ∣ s.base + p ∧ p + 2 ^ 10 ≤ s.pageNum := by
  obtain ⟨p, -, hlt, -, hd⟩ := firstAlignedPage_spec hg h
  have hlast := hg.last
  rw [hb.base, hb.2.2.2]
  exact ⟨p, hd, by omega⟩

/-- The first call of `buddy_get_pages` returns a chunk. -/
lemma first_getPages {imgEnd k : ℕ} (h : HasAlignedPage (initRegion imgEnd)) (hk : k ≤ 10) :
    ∃ s₀ p t, initBuddy imgEnd = .ok s₀ ∧
      machine.Run ⟨s₀, []⟩ [.getPages k] [some p] ⟨t, [⟨p, k⟩]⟩ := by
  obtain ⟨s₀, e, hg⟩ := initBuddy_good h
  rcases hg.getPages hk with ⟨-, hex⟩ | ⟨p, t, e', -⟩
  · obtain ⟨q, hd, hend⟩ := h.block (initRegion_geometry h) hg.bounds
    have hle : 2 ^ k ≤ 2 ^ 10 := Nat.pow_le_pow_right (by norm_num) hk
    have hal : Aligned s₀.base ⟨q, k⟩ := (pow_dvd_pow 2 hk).trans hd
    exact absurd hex (hg.inv.not_exhausted hal hk (by omega) (by rintro c ⟨⟩))
  · exact ⟨s₀, p, t, e, .cons hk e' .nil⟩

/-- The state after eight pages have been asked for. -/
theorem buddy_run_consistent_five_mb :
    ∃ s₀ p t, initBuddy (physMemEnd - 0x500000) = .ok s₀ ∧
      machine.Run ⟨s₀, []⟩ [.getPages 3] [some p] ⟨t, [⟨p, 3⟩]⟩ ∧ Consistent ⟨t, [⟨p, 3⟩]⟩ ∧
      ∃ o s', machine.exec ⟨t, [⟨p, 3⟩]⟩ (.freePages p) = .ok (o, s') := by
  obtain ⟨s₀, p, t, e, r⟩ := first_getPages (k := 3) hasAlignedPage_five_mb (by decide)
  obtain ⟨s, e', hr⟩ := buddy_run_consistent hasAlignedPage_five_mb
  rw [e] at e'
  cases e'
  obtain ⟨hc, -, hex⟩ := hr _ _ _ r
  exact ⟨s₀, p, t, e, r, hc, hex (.freePages p) ⟨_, List.mem_singleton_self _, rfl⟩⟩

/-! ## The free lists are determined by the outstanding chunks -/

/-- The pages of the region outside every outstanding chunk. -/
def Sys.freePages (s : Sys) : Set ℕ :=
  {p | p < s.buddy.pageNum ∧ ∀ b ∈ s.out, p ∉ b.pages}

/-- A block of order at most 10, at a multiple of its size, that lies wholly in the free pages and in
no larger such block. -/
def Sys.MaximalFree (s : Sys) (b : Block) : Prop :=
  (2 ^ (12 + b.order) ∣ s.buddy.pageToVirt b.start ∧ b.order ≤ 10 ∧ b.pages ⊆ s.freePages) ∧
    ∀ c : Block, 2 ^ (12 + c.order) ∣ s.buddy.pageToVirt c.start → c.order ≤ 10 →
      c.pages ⊆ s.freePages → b.pages ⊆ c.pages → c = b

/-- The free lists hold the maximal blocks of the free pages. -/
lemma Good.mem_freeList_iff {r : Buddy} {s : Sys} (h : Good r s) {p k : ℕ} (hk : k ≤ 10) :
    p ∈ (s.buddy.freeLists k).freeList ↔ s.MaximalFree ⟨p, k⟩ := by
  have hi := h.inv
  have ht := hi.tiling.diff fun b hb hH => hi.apart b hH hb
  have hiff := ht.mem_iff_maximal hi.noBuddies (fun b hb => Nat.le_of_lt_succ hb.1) (b := ⟨p, k⟩)
  have hF : p ∈ (s.buddy.freeLists k).freeList ↔ (⟨p, k⟩ : Block) ∈ s.buddy.freeBlocks :=
    ⟨fun hp => ⟨Nat.lt_succ_of_le hk, hp⟩, fun hp => hp.2⟩
  rw [hF, hiff]
  constructor
  · rintro ⟨h1, h2, h3, h4⟩
    exact ⟨⟨hi.geo.aligned_iff.1 h1, h2, h3⟩,
      fun c hc => h4 c ((hi.geo.aligned_iff (p := c.start) (k := c.order)).2 hc)⟩
  · rintro ⟨⟨h1, h2, h3⟩, h4⟩
    exact ⟨hi.geo.aligned_iff.2 h1, h2, h3,
      fun c hc => h4 c ((hi.geo.aligned_iff (p := c.start) (k := c.order)).1 hc)⟩

/-- Two chunks are the halves of one block of the next order. -/
def Buddies (s : Buddy) (k p q : ℕ) : Prop :=
  p ≠ q ∧ s.pageToVirt p / 2 ^ (12 + (k + 1)) = s.pageToVirt q / 2 ^ (12 + (k + 1))

/-- Two free chunks are never buddies. -/
lemma Good.not_buddies {r : Buddy} {s : Sys} (h : Good r s) {k p q : ℕ} (hk : k < 10)
    (hp : p ∈ (s.buddy.freeLists k).freeList) (hq : q ∈ (s.buddy.freeLists k).freeList) :
    ¬ Buddies s.buddy k p q := by
  rintro ⟨hne, hs⟩
  have hi := h.inv
  have hk' : k < buddyMaxOrder := by
    simp only [buddyMaxOrder]
    omega
  have hslot : ∀ n, s.buddy.pageToVirt n / 2 ^ (12 + (k + 1)) = slot s.buddy.base (k + 1) n := by
    intro n
    have e : s.buddy.pageToVirt n = 2 ^ 12 * (s.buddy.base + n) := by
      have := hi.geo.start
      simp only [pageToVirt, pageSize]
      omega
    rw [e, pow_add 2 12, Nat.mul_div_mul_left _ _ (by norm_num)]
    rfl
  rw [hslot, hslot] at hs
  have e := hi.noBuddies ⟨p, k⟩ ⟨hk', hp⟩ ⟨q, k⟩ ⟨hk', hq⟩ rfl (by simpa [buddyMaxOrder] using hk) hs
  injection e with e _
  exact hne e

/-- Runs that end with the same outstanding chunks end with the same free chunks of every order,
namely the maximal aligned blocks of the free pages; no two of them are buddies; and when nothing is
outstanding they are the chunks that `init_buddy` listed. -/
theorem free_lists_determined {imgEnd : ℕ} (h : HasAlignedPage (initRegion imgEnd)) :
    ∃ s₀, initBuddy imgEnd = .ok s₀ ∧ ∀ ops os s, machine.Run ⟨s₀, []⟩ ops os s →
      (∀ k ≤ 10, ∀ p, p ∈ (s.buddy.freeLists k).freeList ↔ s.MaximalFree ⟨p, k⟩) ∧
      (∀ k < 10, ∀ p ∈ (s.buddy.freeLists k).freeList, ∀ q ∈ (s.buddy.freeLists k).freeList,
        ¬ Buddies s.buddy k p q) ∧
      (∀ ops' os' s', machine.Run ⟨s₀, []⟩ ops' os' s' → (∀ b, b ∈ s.out ↔ b ∈ s'.out) →
        ∀ k ≤ 10, ∀ p, p ∈ (s.buddy.freeLists k).freeList ↔ p ∈ (s'.buddy.freeLists k).freeList) ∧
      (s.out = [] →
        ∀ k ≤ 10, ∀ p, p ∈ (s.buddy.freeLists k).freeList ↔ p ∈ (s₀.freeLists k).freeList) := by
  obtain ⟨s₀, e, hg⟩ := initBuddy_good h
  have hgood : ∀ {ops os s}, machine.Run ⟨s₀, []⟩ ops os s → Good (initRegion imgEnd) s :=
    fun r => (machine_sound _).run r hg
  -- the set of maximal blocks depends on the bounds and the outstanding chunks only
  have hsame : ∀ {s s' : Sys}, Good (initRegion imgEnd) s → Good (initRegion imgEnd) s' →
      (∀ b, b ∈ s.out ↔ b ∈ s'.out) → ∀ k ≤ 10, ∀ p,
        p ∈ (s.buddy.freeLists k).freeList ↔ p ∈ (s'.buddy.freeLists k).freeList := by
    intro s s' hs hs' hout k hk p
    rw [hs.mem_freeList_iff hk, hs'.mem_freeList_iff hk]
    have hf : s.freePages = s'.freePages := by
      ext n
      simp only [Sys.freePages, Set.mem_ofPred_eq, hout, hs.bounds.2.2.2, hs'.bounds.2.2.2]
    have hv : ∀ n, s.buddy.pageToVirt n = s'.buddy.pageToVirt n := fun n => by
      rw [pageToVirt, pageToVirt, hs.bounds.1, hs'.bounds.1]
    simp only [Sys.MaximalFree, hf, hv]
  refine ⟨s₀, e, fun ops os s r => ⟨?_, ?_, ?_, ?_⟩⟩
  · exact fun k hk p => (hgood r).mem_freeList_iff hk
  · exact fun k hk p hp q hq => (hgood r).not_buddies hk hp hq
  · exact fun ops' os' s' r' hout => hsame (hgood r) (hgood r') hout
  · intro hnil
    exact hsame (hgood r) hg (fun b => by rw [hnil])

/-- The lists after eight pages have been asked for. -/
theorem free_lists_determined_five_mb :
    ∃ s₀ p t, initBuddy (physMemEnd - 0x500000) = .ok s₀ ∧
      machine.Run ⟨s₀, []⟩ [.getPages 3] [some p] ⟨t, [⟨p, 3⟩]⟩ ∧
      ∀ k ≤ 10, ∀ q, q ∈ (t.freeLists k).freeList ↔ Sys.MaximalFree ⟨t, [⟨p, 3⟩]⟩ ⟨q, k⟩ := by
  obtain ⟨s₀, p, t, e, r⟩ := first_getPages (k := 3) hasAlignedPage_five_mb (by decide)
  obtain ⟨s, e', hr⟩ := free_lists_determined hasAlignedPage_five_mb
  rw [e] at e'
  cases e'
  exact ⟨s₀, p, t, e, r, (hr _ _ _ r).1⟩

/-! ## When an allocation fails -/

/-- The `2 ^ k` pages from `p` on start at a multiple of their size and are all free. -/
def Sys.FreeRun (s : Sys) (p k : ℕ) : Prop :=
  2 ^ (12 + k) ∣ s.buddy.pageToVirt p ∧ (⟨p, k⟩ : Block).pages ⊆ s.freePages

/-- The pages of the listed chunks. -/
def listedPages (s : Buddy) : Set ℕ := {n | ∃ b ∈ s.freeBlocks, n ∈ b.pages}

/-- The listed chunks cover what is not held. -/
lemma Inv.mem_listedPages {s : Buddy} {H : Set Block} {A : Set ℕ} (h : Inv s H A) {n : ℕ} :
    n ∈ s.listedPages ↔ n < s.pageNum ∧ ∀ b ∈ H, n ∉ b.pages :=
  ((h.tiling.diff fun b hb hH => h.apart b hH hb).cover n).symm

/-- The outcome of `buddy_get_pages` against the free pages. -/
structure Completes (s : Sys) (k : ℕ) (page : Option ℕ) (t : Buddy) : Prop where
  /-- it returns `NULL` exactly when there is no room -/
  null_iff : page = none ↔ ¬ ∃ p, s.FreeRun p k
  /-- and then changes nothing -/
  unchanged : page = none → t = s.buddy
  /-- otherwise it returns a free run, and the other free pages stay listed -/
  taken : ∀ p, page = some p → s.FreeRun p k ∧ s.buddy.listedPages = s.freePages ∧
    t.listedPages = s.freePages \ (⟨p, k⟩ : Block).pages

/-- A chunk that is held besides the outstanding ones was a free run. -/
lemma Inv.freeRun {s : Sys} {t : Buddy} {p k : ℕ} {A : Set ℕ}
    (hi : Inv t (insert ⟨p, k⟩ s.held) A) (hf : Frame s.buddy t)
    (hH : (⟨p, k⟩ : Block) ∉ s.held) : s.FreeRun p k := by
  have hmem : (⟨p, k⟩ : Block) ∈ t.freeBlocks ∪ insert ⟨p, k⟩ s.held := .inr (Set.mem_insert _ _)
  constructor
  · rw [← hf.pageToVirt]
    exact hi.geo.aligned_iff.1 (hi.tiling.aligned _ hmem)
  · intro n hn
    refine ⟨?_, fun b hb hnb => hH ?_⟩
    · rw [← hf.pageNum]
      exact hi.tiling.subset hmem hn
    · have e := hi.tiling.disjoint _ hmem b (.inr (Set.mem_insert_of_mem _ hb)) n hn hnb
      rw [e]
      exact hb

/-- A call of `buddy_get_pages` takes a free run of pages or finds that there is none. -/
lemma Good.completes {r : Buddy} {s : Sys} (h : Good r s) {k : ℕ} (hk : k ≤ 10) :
    ∃ page t, s.buddy.buddyGetPages k = .ok (page, t) ∧ Completes s k page t := by
  rcases buddyGetPages_spec (Nat.lt_succ_of_le hk) h.inv with ⟨e, hex⟩ | ⟨p, t, e, hf, hH, hi, -⟩
  · refine ⟨none, s.buddy, e, ?_, fun _ => rfl, fun p e => by cases e⟩
    refine iff_of_true rfl ?_
    rintro ⟨p, hal, hfree⟩
    have hpos : 0 < 2 ^ k := by positivity
    have hlast := (hfree (a := p + (2 ^ k - 1)) ⟨by simp only; omega, by simp only; omega⟩).1
    refine h.inv.not_exhausted (h.inv.geo.aligned_iff.2 hal) hk (by omega) ?_ hex
    exact fun c hc n hn => (hfree hn).2 c hc
  · have hrun : s.FreeRun p k := hi.freeRun hf hH
    refine ⟨some p, t, e, ?_, (fun e => by cases e), ?_⟩
    · exact iff_of_false (by simp) (not_not.2 ⟨p, hrun⟩)
    · intro q eq
      cases eq
      refine ⟨hrun, ?_, ?_⟩
      · ext n
        exact h.inv.mem_listedPages
      · ext n
        rw [hi.mem_listedPages, hf.pageNum]
        constructor
        · intro hn
          exact ⟨⟨hn.1, fun b hb => hn.2 b (Set.mem_insert_of_mem _ hb)⟩, hn.2 _ (Set.mem_insert _ _)⟩
        · rintro ⟨⟨hlt, hout⟩, hnot⟩
          refine ⟨hlt, ?_⟩
          rintro b (rfl | hb)
          · exact hnot
          · exact hout b hb

/-- In every reached state `buddy_get_pages` fails exactly when no aligned run of its size is free; it
then changes nothing, and otherwise takes such a run and nothing else. -/
theorem get_pages_complete {imgEnd : ℕ} (h : HasAlignedPage (initRegion imgEnd)) :
    ∃ s₀, initBuddy imgEnd = .ok s₀ ∧ ∀ ops os s, machine.Run ⟨s₀, []⟩ ops os s →
      ∀ k ≤ 10, ∃ page t, s.buddy.buddyGetPages k = .ok (page, t) ∧ Completes s k page t := by
  obtain ⟨s₀, e, hg⟩ := initBuddy_good h
  exact ⟨s₀, e, fun ops os s r k hk => ((machine_sound _).run r hg).completes hk⟩

/-- A second call, for a chunk of the largest order. -/
theorem get_pages_complete_five_mb :
    ∃ s₀ p t, initBuddy (physMemEnd - 0x500000) = .ok s₀ ∧
      machine.Run ⟨s₀, []⟩ [.getPages 3] [some p] ⟨t, [⟨p, 3⟩]⟩ ∧
      ∃ page u, t.buddyGetPages 10 = .ok (page, u) ∧ Completes ⟨t, [⟨p, 3⟩]⟩ 10 page u := by
  obtain ⟨s₀, p, t, e, r⟩ := first_getPages (k := 3) hasAlignedPage_five_mb (by decide)
  obtain ⟨s, e', hr⟩ := get_pages_complete hasAlignedPage_five_mb
  rw [e] at e'
  cases e'
  exact ⟨s₀, p, t, e, r, hr _ _ _ r 10 le_rfl⟩

end KingdoKernel.Buddy
