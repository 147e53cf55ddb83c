import KingdoKernel.Buddy.Region
import KingdoKernel.Buddy.Represent

/-!
# The buddy allocator in memory refines its model

`splitChunk_refines`, `mergeChunk_refines` and the lemmas after them run the functions of
`Buddy/Memory.lean` and of `Buddy/Basic.lean` side by side, from memory that represents the state and
under the invariant of the allocator. The invariant is what makes the pointer operations meaningful: the
page that is linked in is in no list (`Inv.unlisted`), the one that is unlinked is in the list whose
counter is decremented, and `page_in_list` comes to an end.

`buddy_memory_refines`: after `init_buddy`, every run of the byte-level allocator is a run of
`Buddy.machine`, whatever its callers do in between to the bytes that are not the allocator's.
-/

namespace KingdoKernel.MemRegion
open Buddy ListHead LinkHeap Tiles Tiles.Block

section Reads

variable {g : ℕ} {m : Mem} {s : Buddy} {k p : ℕ} (h : Rep g m s)
include h

/-- `page_to_pfn` of a descriptor is its index. -/
lemma Rep.pageToPfn : MemRegion.pageToPfn m g (descriptor s p) = p := by
  rw [MemRegion.pageToPfn, h.words.pageArrry, descriptor, Nat.add_sub_cancel_left]
  exact Nat.mul_div_cancel p (by decide)

/-- The descriptors of the region pass `is_page`. -/
lemma Rep.isPage (hp : p < s.pageNum) : IsPage m g (descriptor s p) := by
  refine ⟨?_, ?_, ?_⟩
  · rw [h.words.pageArrry]
    exact Nat.le_add_right _ _
  · rw [h.words.pageArrry, descriptor, Nat.add_sub_cancel_left]
    exact Nat.mul_mod_left _ _
  · rw [h.pageToPfn, h.words.pageNum]
    exact hp

/-- `page_to_virt` in memory is the one of the model. -/
lemma Rep.pageToVirt (hg : Geometry s) (hp : p < s.pageNum) :
    MemRegion.pageToVirt m g (descriptor s p) = s.pageToVirt p := by
  have h1 := hg.bound
  have h2 := hg.size
  rw [MemRegion.pageToVirt, h.pageToPfn, h.words.startAddr]
  refine Nat.mod_eq_of_lt ?_
  simp only [pageSize]
  omega

/-- `virt_to_page` in memory is the one of the model. -/
lemma Rep.virtToPage (a : ℕ) : MemRegion.virtToPage m g a = s.descriptorAddr (s.virtToPage a) := by
  rw [MemRegion.virtToPage, Buddy.virtToPage, h.words.startAddr, h.words.size, h.words.pageNum]
  by_cases h1 : a < s.startAddr ∨ (s.startAddr + s.size) % 2 ^ 64 ≤ a
  · rw [if_pos h1, if_pos h1]
    rfl
  · rw [if_neg h1, if_neg h1]
    by_cases h2 : s.pageNum ≤ (a - s.startAddr) / pageSize
    · rw [if_pos h2]
      simp only [if_pos h2]
      rfl
    · rw [if_neg h2, pfnToPage, h.words.pageArrry, Nat.mul_comm]
      simp only [if_neg h2]
      rfl

/-- The first descriptor of a free list. -/
lemma Rep.next (hk : k < buddyMaxOrder) {c : ℕ} {cs : List ℕ} (e : s.lists k = c :: cs) :
    memLinks.next m (freeListAt g k) = descriptor s c := by
  have hr := h.rings.ring (rings_freeListAt (g := g) (s := s) hk)
  have e' : (s.freeLists k).freeList = c :: cs := e
  rw [e'] at hr
  exact (List.isChain_cons_cons.1 hr.linked).1.1

end Reads

/-- The address of a descriptor that exists. -/
lemma descriptorAddr_some (s : Buddy) (p : ℕ) : s.descriptorAddr (some p) = descriptor s p := rfl

/-- A descriptor is not at `NULL`. -/
lemma descriptor_ne_zero {g : ℕ} {s : Buddy} (hl : Layout g s) (p : ℕ) : descriptor s p ≠ 0 := by
  have h1 := hl.below
  simp only [descriptor]
  omega

/-- A descriptor is not the head of a list. -/
lemma descriptor_ne_freeListAt {g : ℕ} {s : Buddy} (hl : Layout g s) {k : ℕ} (hk : k < buddyMaxOrder)
    (p : ℕ) : descriptor s p ≠ freeListAt g k := by
  have h1 := hl.below
  simp only [descriptor, freeListAt, buddyMaxOrder] at *
  omega

/-! ## What the invariant gives -/

section Invariant

variable {s : Buddy} {H : Set Block} {A : Set ℕ} {k : ℕ}

/-- The pages of a chunk that is held are in no free list. -/
lemma unlisted_of_held (h : Inv s H A) {b : Block} {p : ℕ} (hb : b ∈ H) (hp : p ∈ b.pages) :
    Unlisted s p := by
  intro k hk hmem
  have hf : (⟨p, k⟩ : Block) ∈ s.freeBlocks := ⟨hk, hmem⟩
  have e := h.tiling.disjoint b (.inr hb) ⟨p, k⟩ (.inl hf) p hp (start_mem ⟨p, k⟩)
  exact h.apart b hb (e ▸ hf)

/-- Different pages of the region are at most as many as there are. -/
lemma length_le_of_nodup {l : List ℕ} {n : ℕ} (hnd : l.Nodup) (hlt : ∀ q ∈ l, q < n) : l.length ≤ n := by
  have hsub : l.Subperm (List.range n) := hnd.subperm fun q hq => List.mem_range.2 (hlt q hq)
  have hle := hsub.length_le
  rwa [List.length_range] at hle

/-- The number of pages fits a word, and so do the offsets of the descriptors. -/
lemma pageNum_lt (hg : Geometry s) : s.pageNum < 2 ^ 52 := by
  have h1 := hg.size
  have h2 := hg.bound
  omega

/-- A list has at most as many chunks as there are pages. -/
lemma length_le_pageNum (h : Inv s H A) (hk : k < buddyMaxOrder) :
    (s.freeLists k).freeList.length ≤ s.pageNum :=
  length_le_of_nodup (h.nodup k hk) fun _ hq => h.listed_lt hk hq

/-- The counters do not overflow. -/
lemma nrFree_succ_lt (h : Inv s H A) (hk : k < buddyMaxOrder) : (s.freeLists k).nrFree + 1 < 2 ^ 64 := by
  have h1 := length_le_pageNum h hk
  have h2 := pageNum_lt h.geo
  rw [h.count k hk]
  omega

end Invariant

/-! ## Searching a list -/

section Search

variable {g : ℕ} {m : Mem} {s : Buddy} {H : Set Block} {A : Set ℕ} {k b : ℕ}

/-- From a node before `b` on, the search comes to `b`. -/
lemma pageInListFrom_of_linked (h : Rep g m s) (hl : Layout g s) (hk : k < buddyMaxOrder) {ys zs : List ℕ}
    {x n : ℕ} (hlink : memLinks.Linked m (x :: ((ys ++ b :: zs).map (descriptor s) ++ [freeListAt g k])))
    (hlt : ∀ q ∈ ys, q < s.pageNum) (hb : b ∉ ys) :
    pageInListFrom m g (descriptor s b) (freeListAt g k) (ys.length + 1 + n) (memLinks.next m x) =
      .ok true := by
  induction ys generalizing x with
  | nil =>
    have hx : memLinks.next m x = descriptor s b := (List.isChain_cons_cons.1 hlink).1.1
    rw [List.length_nil, Nat.zero_add, Nat.add_comm, pageInListFrom, hx,
      if_neg (descriptor_ne_freeListAt hl hk b), if_pos rfl]
  | cons y ys ih =>
    obtain ⟨⟨hx, -⟩, hlink'⟩ := List.isChain_cons_cons.1 hlink
    rw [List.mem_cons, not_or] at hb
    have e : (y :: ys).length + 1 + n = (ys.length + 1 + n) + 1 := by
      simp only [List.length_cons]
      omega
    have hy : IsPage m g (descriptor s y) := h.isPage (hlt y List.mem_cons_self)
    rw [e, pageInListFrom, hx, if_neg (descriptor_ne_freeListAt hl hk y),
      if_neg fun ee => hb.1 (descriptor_inj ee).symm, if_neg (not_not.2 hy)]
    exact ih hlink' (fun q hq => hlt q (List.mem_cons_of_mem _ hq)) hb.2

/-- `page_in_list` finds the pages of a list. -/
lemma pageInList_of_mem (h : Rep g m s) (hl : Layout g s) (hi : Inv s H A) (hk : k < buddyMaxOrder)
    (hb : b ∈ (s.freeLists k).freeList) :
    pageInList m g (descriptor s b) (freeListAt g k) = .ok true := by
  have hr := h.rings.ring (rings_freeListAt (g := g) (s := s) hk)
  have hne : ¬ (descriptor s b = 0 ∨ freeListAt g k = 0 ∨
      listEmpty memLinks m (freeListAt g k) = true) := by
    rintro (e | e | e)
    · exact descriptor_ne_zero hl b e
    · rw [freeListAt] at e
      omega
    · rw [listEmpty_ring memLinks hr, List.map_eq_nil_iff] at e
      rw [e] at hb
      exact List.not_mem_nil hb
  obtain ⟨ys, zs, e⟩ := List.append_of_mem hb
  have hnd := hi.nodup k hk
  have hlen := length_le_pageNum hi hk
  have hlt : ∀ q ∈ (s.freeLists k).freeList, q < s.pageNum := fun q hq => hi.listed_lt hk hq
  rw [e] at hr hnd hlen hlt
  have hby : b ∉ ys := fun hmem => (List.nodup_append.1 hnd).2.2 b hmem b List.mem_cons_self rfl
  rw [List.length_append, List.length_cons] at hlen
  have hfuel : pageNum m g + 1 = ys.length + 1 + (s.pageNum - ys.length) := by
    rw [h.words.pageNum]
    omega
  rw [pageInList, if_neg hne, hfuel]
  exact pageInListFrom_of_linked h hl hk hr.linked
    (fun q hq => hlt q (List.mem_append_left _ hq)) hby

end Search

/-! ## Taking and splitting chunks -/

section Split

variable {g : ℕ} {m : Mem} {s : Buddy} {H : Set Block} {A : Set ℕ} {k c : ℕ}

/-- Descriptors are stored one after the other. -/
lemma descriptor_add (s : Buddy) (p n : ℕ) : descriptor s p + sizeofPage * n = descriptor s (p + n) := by
  rw [descriptor, descriptor, Nat.add_mul, Nat.mul_comm n, Nat.add_assoc]

/-- Taking the first chunk of a list that is not empty. -/
lemma takeFirst_refines (h : Rep g m s) (hl : Layout g s) (hi : Inv s H A) (hk : k < buddyMaxOrder)
    (hz : (s.freeLists k).nrFree ≠ 0) (expr : String) :
    ∃ c m', c ∈ (s.freeLists k).freeList ∧ s.takeFirst k = .ok (c, s.delFree k c) ∧
      takeFirst m g k expr = .ok (descriptor s c, m') ∧ Refines g m s m' (s.delFree k c) := by
  obtain ⟨c, cs, e, hc⟩ := takeFirst_spec hi hk hz
  have hmem := mem_of_lists_eq hc
  have hn := nrFree_succ_lt hi hk
  refine ⟨c, _, hmem, e, ?_, h.delFree hl hk hmem (Nat.pos_of_ne_zero hz) (by omega)⟩
  rw [takeFirst, h.next hk hc, if_neg (descriptor_ne_zero hl c), if_neg (not_not.2 (h.isPage (hi.listed_lt hk hmem)))]

/-- The end of `split_chunk`. -/
lemma cutChunk_refines (h : Rep g m s) (hl : Layout g s) (hi : Inv s (insert ⟨c, k + 1⟩ H) A) :
    ∃ s' m', (do
        let s ← s.setOrder c k
        let s ← s.setOrder (c + 2 ^ k) k
        pure (some c, s.addFree k (c + 2 ^ k))) = Except.ok (some c, s') ∧
      cutChunk m g k (descriptor s c) = .ok (descriptor s c, m') ∧ Refines g m s m' s' := by
  have hheld : (⟨c, k + 1⟩ : Block) ∈ insert ⟨c, k + 1⟩ H := Set.mem_insert _ _
  have hend := hi.end_le (.inr hheld)
  have hk : k + 1 < buddyMaxOrder := hi.top _ hheld
  have hpow : 2 ^ (k + 1) = 2 * 2 ^ k := by rw [pow_succ, Nat.mul_comm]
  have hpos : 0 < 2 ^ k := by positivity
  simp only [] at hend
  have h1 : c < s.pageNum := by omega
  have h2 : c + 2 ^ k < s.pageNum := by omega
  have hk' : k < 2 ^ 32 := by
    rw [buddyMaxOrder] at hk
    omega
  have hun : Unlisted s (c + 2 ^ k) :=
    unlisted_of_held hi hheld (mem_pages_succ.2 (.inr (start_mem ⟨c + 2 ^ k, k⟩)))
  have hn := nrFree_succ_lt hi (k := k) (by omega)
  have hR := h.setOrder hl h1 hk'
  have hR' := hR.trans (hR.rep.setOrder (hl.congr hR.bounds) (p := c + 2 ^ k) h2 hk')
  have hR'' := hR'.trans (hR'.rep.addFree (hl.congr hR'.bounds) (by omega) (p := c + 2 ^ k) h2 hun hn)
  refine ⟨_, _, ?_, ?_, hR''⟩
  · rw [setOrder_ok h1, ok_bind, setOrder_ok (show c + 2 ^ k < (s.writeOrder c k).pageNum from h2)]
    rfl
  · have e : descriptor s c + sizeofPage * buddyChunkPagesCount k = descriptor s (c + 2 ^ k) :=
      descriptor_add s c (2 ^ k)
    rw [cutChunk, e]
    simp only []
    rw [if_neg]
    · rfl
    · rw [not_or, not_not, not_not]
      exact ⟨h.isPage h1, h.isPage h2⟩

/-- One level of `split_chunk`. -/
lemma splitChunk_succ (m : Mem) (g : ℕ) (hk : k + 1 < buddyMaxOrder) :
    splitChunk m g (k + 1) =
      (if nrFree m (freeListAt g (k + 1)) = 0 then splitChunk m g (k + 1 + 1)
        else takeFirst m g (k + 1) "chunk == NULL") >>= fun r =>
      if r.1 = 0 then .ok (0, r.2) else cutChunk r.2 g k r.1 := by
  rw [splitChunk, if_neg (by omega)]
  rfl

/-- `split_chunk`. -/
lemma splitChunk_refines {n : ℕ} (h : Rep g m s) (hl : Layout g s) (hkn : k + 1 + n = buddyMaxOrder)
    (hi : Inv s H A) :
    ∃ o s' m', s.splitChunk (k + 1) = .ok (o, s') ∧
      splitChunk m g (k + 1) = .ok (s.descriptorAddr o, m') ∧ Refines g m s m' s' := by
  induction n generalizing k with
  | zero =>
    refine ⟨none, s, m, ?_, ?_, Refines.refl h⟩
    · rw [Buddy.splitChunk, if_pos (by omega)]
    · rw [splitChunk, if_pos (by omega)]
      rfl
  | succ n ih =>
    have hk : k + 1 < buddyMaxOrder := by omega
    have hcut : ∀ {s1 m1 c}, Refines g m s m1 s1 → Inv s1 (insert ⟨c, k + 1⟩ H) A →
        ∃ s' m', (do
            let s ← s1.setOrder c k
            let s ← s.setOrder (c + 2 ^ k) k
            pure (some c, s.addFree k (c + 2 ^ k))) = Except.ok (some c, s') ∧
          cutChunk m1 g k (descriptor s c) = .ok (descriptor s c, m') ∧ Refines g m s m' s' := by
      intro s1 m1 c hR hi1
      obtain ⟨s', m', e, e', hR'⟩ := cutChunk_refines hR.rep (hl.congr hR.bounds) hi1
      rw [descriptor_congr hR.bounds] at e'
      exact ⟨s', m', e, e', hR.trans hR'⟩
    rw [Buddy.splitChunk, if_neg (by omega), splitChunk_succ m g hk, h.nrFree (k + 1) hk]
    by_cases hz : (s.freeLists (k + 1)).nrFree = 0
    · rw [if_pos hz, if_pos hz]
      obtain ⟨o, s1, m1, e, e', hR⟩ := ih (k := k + 1) (by omega)
      rw [e, e']
      cases o with
      | none => exact ⟨none, s1, m1, rfl, rfl, hR⟩
      | some c =>
        have hi1 : Inv s1 (insert ⟨c, k + 1⟩ H) A := by
          rcases splitChunk_spec (k := k + 1) (n := n) (by omega) hi with ⟨e2, -⟩ | ⟨d, t, L, e2, -, -, hi1, -⟩
          · rw [e] at e2
            cases e2
          · rw [e] at e2
            cases e2
            exact hi1
        obtain ⟨s', m', e2, e2', hR'⟩ := hcut hR hi1
        refine ⟨some c, s', m', e2, ?_, hR'⟩
        exact (if_neg (descriptor_ne_zero hl c)).trans e2'
    · rw [if_neg hz, if_neg hz]
      obtain ⟨c, m1, hmem, e, e', hR⟩ := takeFirst_refines h hl hi hk hz "chunk == NULL"
      obtain ⟨s', m', e2, e2', hR'⟩ := hcut hR (hi.delFree hk hmem)
      rw [e, e']
      refine ⟨some c, s', m', e2, ?_, hR'⟩
      exact (if_neg (descriptor_ne_zero hl c)).trans e2'

/-- `buddy_get_pages`. -/
lemma buddyGetPages_refines (h : Rep g m s) (hl : Layout g s) (hi : Inv s H (heads H))
    (hk : k < buddyMaxOrder) :
    ∃ o s' m', s.buddyGetPages k = .ok (o, s') ∧
      buddyGetPages m g k = .ok (s.descriptorAddr o, m') ∧ Refines g m s m' s' := by
  -- the common end of both branches, as in `buddyGetPages_pop`
  have hend : ∀ {s1 m1 c}, Refines g m s m1 s1 → (⟨c, k⟩ : Block) ∉ H →
      Inv s1 (insert ⟨c, k⟩ H) (heads H) →
      ∃ s' m', (if (s1.pages c).allocated = 1 then
          Except.error (Fault.kerror "page %p has been allocated\n")
        else if (s1.pages c).order ≠ k then .error (.bugOn "page->order != order")
        else do
          let s ← s1.setAllocated c 1
          pure (some c, s)) = .ok (some c, s') ∧
        (if descriptor s c = 0 then Except.ok (0, m1)
        else if ¬ IsPage m1 g (descriptor s c) then .error Fault.wild
        else if allocated m1 (descriptor s c) = 1 then
          .error (Fault.kerror "page %p has been allocated\n")
        else if order m1 (descriptor s c) ≠ k then .error (Fault.bugOn "page->order != order")
        else .ok (descriptor s c, setAllocated m1 (descriptor s c) 1)) =
          .ok (descriptor s c, m') ∧ Refines g m s m' s' := by
    intro s1 m1 c hR hH hi1
    have hmem : (⟨c, k⟩ : Block) ∈ s1.freeBlocks ∪ insert ⟨c, k⟩ H := .inr (Set.mem_insert _ _)
    have hlt : c < s1.pageNum := hi1.start_lt hmem
    have hun := hi1.unflagged c hlt (hi1.start_not_mem_heads hH)
    have hord : (s1.pages c).order = k := hi1.order _ hmem
    have hpg := hR.rep.page c hlt
    have hip := hR.rep.isPage hlt
    rw [descriptor_congr hR.bounds] at hpg hip
    have hset := hR.rep.setAllocated (hl.congr hR.bounds) hlt (v := 1) (by norm_num)
    rw [descriptor_congr hR.bounds] at hset
    refine ⟨_, _, ?_, ?_, hR.trans hset⟩
    · rw [if_neg (by omega), if_neg (by omega), setAllocated_ok hlt]
      rfl
    · rw [if_neg (descriptor_ne_zero hl c), if_neg (not_not.2 hip), hpg.allocated, hpg.order,
        if_neg (by omega), if_neg (not_not.2 hord)]
  obtain ⟨n, hn⟩ := Nat.exists_eq_add_of_le (show k + 1 ≤ buddyMaxOrder from hk)
  rw [Buddy.buddyGetPages, buddyGetPages, if_neg (show ¬ buddyMaxOrder ≤ k by omega), h.nrFree k hk]
  by_cases hz : (s.freeLists k).nrFree = 0
  · simp only [if_pos hz]
    obtain ⟨o, s1, m1, e, e', hR⟩ := splitChunk_refines h hl hn.symm hi
    rw [e, e']
    cases o with
    | none => exact ⟨none, s1, m1, rfl, rfl, hR⟩
    | some c =>
      rcases splitChunk_spec hn.symm hi with ⟨e2, -⟩ | ⟨d, t, L, e2, -, hH, hi1, -⟩
      · rw [e] at e2
        cases e2
      · rw [e] at e2
        cases e2
        obtain ⟨s', m', e3, e3', hR'⟩ := hend hR hH hi1
        exact ⟨some c, s', m', e3, e3', hR'⟩
  · simp only [if_neg hz]
    obtain ⟨c, m1, hmem, e, e', hR⟩ := takeFirst_refines h hl hi hk hz "page == NULL"
    obtain ⟨s', m', e3, e3', hR'⟩ := hend hR (hi.not_held hk hmem) (hi.delFree hk hmem)
    rw [e, e']
    exact ⟨some c, s', m', e3, e3', hR'⟩

end Split

/-! ## Merging chunks -/

section Merge

variable {g : ℕ} {m : Mem} {s : Buddy} {H : Set Block} {k c : ℕ}

/-- `merge_chunk`. -/
lemma mergeChunk_refines {n : ℕ} (h : Rep g m s) (hl : Layout g s) (hkn : k + n + 1 = buddyMaxOrder)
    (hi : Inv s (insert ⟨c, k⟩ H) (heads H)) (hH : (⟨c, k⟩ : Block) ∉ H) :
    ∃ x s' m', s.mergeChunk c = .ok (x, s') ∧
      mergeChunk m g (descriptor s c) = .ok (descriptor s x, m') ∧ Refines g m s m' s' := by
  induction n generalizing m s c k with
  | zero =>
    have hcm : (⟨c, k⟩ : Block) ∈ s.freeBlocks ∪ insert ⟨c, k⟩ H := .inr (Set.mem_insert _ _)
    have hlt : c < s.pageNum := hi.start_lt hcm
    have ho : (s.pages c).order = k := hi.order _ hcm
    have ho' : order m (descriptor s c) = k := ((h.page c hlt).order).trans ho
    refine ⟨c, s, m, ?_, ?_, Refines.refl h⟩
    · rw [Buddy.mergeChunk]
      simp only [ho]
      rw [if_neg (by omega), if_pos (by omega)]
    · rw [mergeChunk]
      simp only [ho']
      rw [if_neg (descriptor_ne_zero hl c), if_neg, if_pos (.inr (by omega))]
      rw [not_or, not_not]
      exact ⟨h.isPage hlt, by omega⟩
  | succ n ih =>
    have hcm : (⟨c, k⟩ : Block) ∈ s.freeBlocks ∪ insert ⟨c, k⟩ H := .inr (Set.mem_insert _ _)
    have hlt : c < s.pageNum := hi.start_lt hcm
    have hk : k < buddyMaxOrder := by omega
    have ho : (s.pages c).order = k := hi.order _ hcm
    have ho' : order m (descriptor s c) = k := ((h.page c hlt).order).trans ho
    have hwild : ¬ (¬ IsPage m g (descriptor s c) ∨ buddyMaxOrder ≤ k) := by
      rw [not_or, not_not]
      exact ⟨h.isPage hlt, by omega⟩
    rw [Buddy.mergeChunk, mergeChunk]
    simp only [ho, ho', h.nrFree k hk, h.pageToVirt hi.geo hlt, h.virtToPage]
    rw [if_neg (show ¬ (s.pageNum ≤ c ∨ buddyMaxOrder ≤ k) by omega),
      if_neg (descriptor_ne_zero hl c), if_neg hwild]
    by_cases hz : (s.freeLists k).nrFree = 0
    · rw [if_pos (.inl hz), if_pos (.inl hz)]
      exact ⟨c, s, m, rfl, rfl, Refines.refl h⟩
    rw [if_neg (show ¬ ((s.freeLists k).nrFree = 0 ∨ k = buddyMaxOrder - 1) by omega),
      if_neg (show ¬ ((s.freeLists k).nrFree = 0 ∨ k = buddyMaxOrder - 1) by omega)]
    rcases hi.buddy_cases (by omega) with ⟨b, p, eb, ep, hh, hp, hb⟩ | ⟨e, -⟩
    · have eb' : (if s.descriptorAddr (some p) = descriptor s c then
          descriptor s c + sizeofPage * buddyChunkPagesCount k else s.descriptorAddr (some p)) =
          descriptor s b := by
        change (if descriptor s p = descriptor s c then _ else descriptor s p) = _
        rw [ep] at eb
        by_cases hpc : p = c
        · subst hpc
          rw [if_pos rfl] at eb ⊢
          rw [← Option.some.inj eb]
          exact descriptor_add s p _
        · rw [if_neg fun hh => hpc (Option.some.inj hh)] at eb
          rw [if_neg fun hh => hpc (descriptor_inj hh), Option.some.inj eb]
      have hpb := h.page b hb
      rw [eb, ep]
      simp only [eb', hpb.allocated, hpb.order]
      rw [if_neg (show ¬ s.pageNum ≤ b by omega), if_neg (descriptor_ne_zero hl b),
        if_neg (not_not.2 (h.isPage hb))]
      by_cases hbusy : (s.pages b).allocated = 1 ∨ (s.pages b).order ≠ k
      · rw [if_pos hbusy, if_pos hbusy]
        exact ⟨c, s, m, rfl, rfl, Refines.refl h⟩
      · have hbl := hi.mem_of_not_busy hh hp hb hbusy
        have hn := nrFree_succ_lt hi hk
        rw [if_neg hbusy, if_neg (not_not.2 hbl), if_neg hbusy, pageInList_of_mem h hl hi hk hbl, ok_bind,
          if_neg (by decide)]
        -- the links, the counter and the order of the parent, then the parent is merged further
        obtain ⟨hpH, hi'⟩ := hi.absorb hH (by omega) hbl hp hh
        have hplt : p < s.pageNum := hi'.start_lt (.inr (Set.mem_insert _ _))
        have hR := h.delFree hl hk hbl (by omega) (by omega)
        have hR' := hR.trans (hR.rep.setOrder (hl.congr hR.bounds) (p := p) hplt
          (k := k + 1) (by simp only [buddyMaxOrder] at hk; omega))
        obtain ⟨x, s', m', e, e', hR''⟩ := ih hR'.rep (hl.congr hR'.bounds) (by omega) hi' hpH
        exact ⟨x, s', m', e, e', hR'.trans hR''⟩
    · simp only [e, reduceCtorEq, if_false]
      have hne : ¬ s.descriptorAddr none = descriptor s c := fun hc => descriptor_ne_zero hl c hc.symm
      rw [if_neg hne, if_pos (show s.descriptorAddr none = 0 from rfl)]
      exact ⟨c, s, m, rfl, rfl, Refines.refl h⟩

/-- `buddy_free_pages` on the head of a chunk that is held. -/
lemma buddyFreePages_refines (h : Rep g m s) (hl : Layout g s)
    (hi : Inv s (insert ⟨c, k⟩ H) (heads (insert ⟨c, k⟩ H))) (hH : (⟨c, k⟩ : Block) ∉ H) :
    ∃ s' m', s.buddyFreePages c = .ok s' ∧ buddyFreePages m g (descriptor s c) = .ok m' ∧
      Refines g m s m' s' := by
  have hcm : (⟨c, k⟩ : Block) ∈ s.freeBlocks ∪ insert ⟨c, k⟩ H := .inr (Set.mem_insert _ _)
  have hlt : c < s.pageNum := hi.start_lt hcm
  have hk : k < buddyMaxOrder := hi.top _ (Set.mem_insert _ _)
  have hA : heads (insert ⟨c, k⟩ H) \ {c} = heads H := by
    rw [heads_insert]
    exact Set.insert_sdiff_self_of_notMem (hi.start_not_mem_heads hH)
  have hclear := hi.clearFlag (p := c)
  rw [hA] at hclear
  have hR := h.setAllocated hl hlt (v := 0) (by norm_num)
  have hkn : k + (buddyMaxOrder - 1 - k) + 1 = buddyMaxOrder := by omega
  obtain ⟨x, s1, m1, e, e', hR1⟩ := mergeChunk_refines hR.rep (hl.congr hR.bounds) hkn hclear hH
  obtain ⟨y, j, t, e2, -, hyH, hi1, -, -⟩ := mergeChunk_spec hkn hclear hH
  rw [e] at e2
  cases e2
  have hheld : (⟨x, j⟩ : Block) ∈ insert ⟨x, j⟩ H := Set.mem_insert _ _
  have hj : j < buddyMaxOrder := hi1.top _ hheld
  have hxlt : x < s1.pageNum := hi1.start_lt (.inr hheld)
  have hxo : (s1.pages x).order = j := hi1.order _ (.inr hheld)
  have hR2 := hR.trans hR1
  have hxo' : order m1 (descriptor s x) = j := by
    rw [← descriptor_congr hR2.bounds, (hR1.rep.page x hxlt).order, hxo]
  have hxp : IsPage m1 g (descriptor s x) := by
    rw [← descriptor_congr hR2.bounds]
    exact hR1.rep.isPage hxlt
  have hadd := hR1.rep.addFree (hl.congr hR2.bounds) hj hxlt
    (unlisted_of_held hi1 hheld (start_mem ⟨x, j⟩)) (nrFree_succ_lt hi1 hj)
  rw [descriptor_congr hR2.bounds] at hadd
  refine ⟨s1.addFree j x, _, ?_, ?_, hR2.trans hadd⟩
  · rw [Buddy.buddyFreePages, setAllocated_ok hlt, ok_bind, e, ok_bind]
    simp only [hxo]
    rw [if_neg (by omega)]
  · have e'' : mergeChunk (setAllocated m (descriptor s c) 0) g (descriptor s c) =
        .ok (descriptor s x, m1) := e'
    rw [buddyFreePages, if_neg (not_not.2 (h.isPage hlt)), e'', ok_bind, hxo', if_neg]
    rw [not_or, not_not]
    exact ⟨hxp, by omega⟩

end Merge

/-! ## Initialisation -/

/-- The state of the loops of `populate_page`: every chunk listed so far starts in `[lo, hi)`. -/
structure Between (s : Buddy) (lo hi : ℕ) : Prop where
  listed : ∀ k < buddyMaxOrder, ∀ q ∈ (s.freeLists k).freeList, lo ≤ q ∧ q < hi ∧ q < s.pageNum
  nodup : ∀ k < buddyMaxOrder, (s.freeLists k).freeList.Nodup
  count : ∀ k < buddyMaxOrder, (s.freeLists k).nrFree = (s.freeLists k).freeList.length

namespace Between

variable {s : Buddy} {lo hi k p : ℕ}

/-- A page outside the part that is being populated is in no list. -/
lemma unlisted (h : Between s lo hi) (hp : p < lo ∨ hi ≤ p) : Unlisted s p := by
  intro k hk hmem
  have := h.listed k hk p hmem
  omega

/-- The counters do not overflow while the region is populated. -/
lemma nrFree_succ_lt (h : Between s lo hi) (hg : Geometry s) (hk : k < buddyMaxOrder) :
    (s.freeLists k).nrFree + 1 < 2 ^ 64 := by
  have h1 := length_le_of_nodup (h.nodup k hk) fun q hq => (h.listed k hk q hq).2.2
  have h2 := pageNum_lt hg
  rw [h.count k hk]
  omega

/-- One more chunk, on either side. -/
lemma populateChunk {lo' hi' : ℕ} (h : Between s lo hi) (hp : p < lo ∨ hi ≤ p) (hlt : p < s.pageNum)
    (hlo : lo' ≤ lo) (hhi : hi ≤ hi') (hp1 : lo' ≤ p) (hp2 : p < hi') :
    Between (s.populateChunk k p) lo' hi' := by
  refine ⟨fun j hj q hq => ?_, fun j hj => ?_, fun j hj => ?_⟩
  · rw [Buddy.populateChunk, freeLists_addFree] at hq
    change lo' ≤ q ∧ q < hi' ∧ q < s.pageNum
    split_ifs at hq with e
    · rcases List.mem_cons.1 hq with rfl | hq
      · exact ⟨hp1, hp2, hlt⟩
      · have := h.listed k (e ▸ hj) q hq
        omega
    · have := h.listed j hj q hq
      omega
  · rw [Buddy.populateChunk, freeLists_addFree]
    split_ifs with e
    · exact List.nodup_cons.2 ⟨h.unlisted hp k (e ▸ hj), h.nodup k (e ▸ hj)⟩
    · exact h.nodup j hj
  · rw [Buddy.populateChunk, freeLists_addFree]
    split_ifs with e
    · have hc := h.count k (e ▸ hj)
      change (s.freeLists k).nrFree + 1 = _
      rw [hc]
      rfl
    · exact h.count j hj

end Between

section Populate

variable {g : ℕ} {m : Mem} {s : Buddy} {lo hi k page last : ℕ}

/-- The inner loop that fills forward. -/
lemma fillForward_refines (h : Rep g m s) (hl : Layout g s) (hg : Geometry s) (hk : k < buddyMaxOrder)
    (hb : Between s lo page) (hlo : lo ≤ page) (hlast : last ≤ s.pageNum) :
    ∃ m', fillForward m g k (descriptor s page) (descriptor s last) =
        (descriptor s (s.fillForward k page last).1, m') ∧
      Refines g m s m' (s.fillForward k page last).2 ∧
      Between (s.fillForward k page last).2 lo (s.fillForward k page last).1 ∧
      lo ≤ (s.fillForward k page last).1 := by
  have hpos : 0 < buddyChunkPagesCount k := Nat.two_pow_pos k
  induction hn : last - page using Nat.strong_induction_on generalizing m s page with
  | _ n ih =>
    have hiff : descriptor s page + sizeofPage * buddyChunkPagesCount k - sizeofPage < descriptor s last ↔
        page + buddyChunkPagesCount k - 1 < last := by
      simp only [descriptor, sizeofPage]
      omega
    rw [Buddy.fillForward, fillForward]
    by_cases hc : page + buddyChunkPagesCount k - 1 < last
    · rw [if_pos hc, if_pos (hiff.2 hc), descriptor_add]
      have hlt : page < s.pageNum := by omega
      have hR := h.populateChunk hl hk hlt (hb.unlisted (.inr le_rfl)) (hb.nrFree_succ_lt hg hk)
      have hb' : Between (s.populateChunk k page) lo (page + buddyChunkPagesCount k) :=
        hb.populateChunk (.inr le_rfl) hlt le_rfl (by omega) hlo (by omega)
      obtain ⟨m', e, hR', hb'', hlo'⟩ := ih _ (by omega) hR.rep (hl.congr hR.bounds)
        (hg.congr rfl rfl rfl) hb' (by omega) hlast rfl
      exact ⟨m', e, hR.trans hR', hb'', hlo'⟩
    · rw [if_neg hc, if_neg fun hh => hc (hiff.1 hh)]
      exact ⟨m, rfl, Refines.refl h, hb, hlo⟩

/-- The loop over the orders that fills forward. -/
lemma populateForward_refines (n last : ℕ) (h : Rep g m s) (hl : Layout g s) (hg : Geometry s)
    (hn : n ≤ buddyMaxOrder) (hb : Between s lo page) (hlo : lo ≤ page) (hlast : last ≤ s.pageNum) :
    Refines g m s (populateForward m g n (descriptor s page) (descriptor s last))
        (s.populateForward n page last) ∧
      ∃ hi, Between (s.populateForward n page last) lo hi ∧ lo ≤ hi := by
  induction n generalizing m s page with
  | zero => exact ⟨Refines.refl h, page, hb, hlo⟩
  | succ n ih =>
    obtain ⟨m', e, hR, hb', hlo'⟩ := fillForward_refines h hl hg (show n < buddyMaxOrder from hn) hb hlo hlast
    rw [populateForward, e, Buddy.populateForward]
    generalize hr : s.fillForward n page last = r at hR hb' hlo'
    obtain ⟨page', s'⟩ := r
    have hg' : Geometry s' := hg.congr hR.bounds.1 hR.bounds.2.1 hR.bounds.2.2.2
    obtain ⟨hR', hi, hb''⟩ := ih hR.rep (hl.congr hR.bounds) hg' (by omega) hb' hlo'
      (hlast.trans hR.bounds.2.2.2.ge)
    rw [descriptor_congr hR.bounds, descriptor_congr hR.bounds] at hR'
    exact ⟨hR.trans hR', hi, hb''⟩

/-- The inner loop that fills backward. -/
lemma fillBackward_refines (first : ℕ) (h : Rep g m s) (hl : Layout g s) (hg : Geometry s) (hk : k < buddyMaxOrder)
    (hb : Between s page hi) (hpage : page ≤ s.pageNum) (hhi : page ≤ hi) :
    ∃ m', fillBackward m g k (descriptor s page) (descriptor s first) =
        (descriptor s (s.fillBackward k page first).1, m') ∧
      Refines g m s m' (s.fillBackward k page first).2 ∧
      Between (s.fillBackward k page first).2 (s.fillBackward k page first).1 hi ∧
      (s.fillBackward k page first).1 ≤ page := by
  have hpos : 0 < buddyChunkPagesCount k := Nat.two_pow_pos k
  induction hn : page using Nat.strong_induction_on generalizing m s page with
  | _ n ih =>
    subst hn
    have hiff : descriptor s first + sizeofPage * buddyChunkPagesCount k ≤ descriptor s page ↔
        first + buddyChunkPagesCount k ≤ page := by
      simp only [descriptor, sizeofPage]
      omega
    rw [Buddy.fillBackward, fillBackward]
    by_cases hc : first + buddyChunkPagesCount k ≤ page
    · have hsub : descriptor s page - sizeofPage * buddyChunkPagesCount k =
          descriptor s (page - buddyChunkPagesCount k) := by
        simp only [descriptor, sizeofPage]
        omega
      rw [if_pos hc, if_pos (hiff.2 hc), hsub]
      have hlt : page - buddyChunkPagesCount k < s.pageNum := by omega
      have hout : page - buddyChunkPagesCount k < page ∨ hi ≤ page - buddyChunkPagesCount k := by omega
      have hR := h.populateChunk hl hk hlt (hb.unlisted hout) (hb.nrFree_succ_lt hg hk)
      have hb' : Between (s.populateChunk k (page - buddyChunkPagesCount k))
          (page - buddyChunkPagesCount k) hi :=
        hb.populateChunk hout hlt (by omega) le_rfl le_rfl (by omega)
      obtain ⟨m', e, hR', hb'', hle⟩ := ih (page - buddyChunkPagesCount k) (by omega) hR.rep
        (hl.congr hR.bounds) (hg.congr rfl rfl rfl) hb' (by show _ ≤ s.pageNum; omega) (by omega) rfl
      exact ⟨m', e, hR.trans hR', hb'', by omega⟩
    · rw [if_neg hc, if_neg fun hh => hc (hiff.1 hh)]
      exact ⟨m, rfl, Refines.refl h, hb, le_rfl⟩

/-- The loop over the orders that fills backward. -/
lemma populateBackward_refines (n first : ℕ) (h : Rep g m s) (hl : Layout g s) (hg : Geometry s)
    (hn : n ≤ buddyMaxOrder) (hb : Between s page hi) (hpage : page ≤ s.pageNum) (hhi : page ≤ hi) :
    Refines g m s (populateBackward m g n (descriptor s page) (descriptor s first))
      (s.populateBackward n page first) := by
  induction n generalizing m s page with
  | zero => exact Refines.refl h
  | succ n ih =>
    obtain ⟨m', e, hR, hb', hle⟩ :=
      fillBackward_refines first h hl hg (show n < buddyMaxOrder from hn) hb hpage hhi
    rw [populateBackward, e, Buddy.populateBackward]
    generalize hr : s.fillBackward n page first = r at hR hb' hle
    obtain ⟨page', s'⟩ := r
    have hg' : Geometry s' := hg.congr hR.bounds.1 hR.bounds.2.1 hR.bounds.2.2.2
    have hle' : page' ≤ s'.pageNum := (hle.trans hpage).trans hR.bounds.2.2.2.ge
    have hR' := ih hR.rep (hl.congr hR.bounds) hg' (by omega) hb' hle' (hle.trans hhi)
    rw [descriptor_congr hR.bounds, descriptor_congr hR.bounds] at hR'
    exact hR.trans hR'

end Populate

section Initial

variable {g : ℕ} {m : Mem} {s : Buddy}

/-- `init_list_head` writes to its node only. -/
lemma initListHead_apart {a x : ℕ} (h : x < a ∨ a + 16 ≤ x) : initListHead memLinks m a x = m x :=
  (Mem.store_of_not_mem (by omega)).trans (Mem.store_of_not_mem (by omega))

/-- The loop over the free lists writes to them only. -/
lemma initFreeLists_apart {n x : ℕ} (hx : x < g + 40 ∨ g + 40 + 24 * n ≤ x) :
    initFreeLists m g n x = m x := by
  induction n with
  | zero => rfl
  | succ n ih =>
    rw [initFreeLists, initListHead_apart (by rw [freeListAt]; omega)]
    exact (Mem.store_of_not_mem (by rw [freeListAt]; omega)).trans (ih (by omega))

/-- and leaves all of them empty. -/
lemma initFreeLists_spec (hl : Layout g s) {n : ℕ} (hn : n ≤ buddyMaxOrder) {k : ℕ} (hk : k < n) :
    memLinks.Ring (nodes g s) (initFreeLists m g n) (freeListAt g k) [] ∧
      nrFree (initFreeLists m g n) (freeListAt g k) = 0 := by
  induction n with
  | zero => omega
  | succ n ih =>
    rw [initFreeLists]
    rcases Nat.lt_succ_iff_lt_or_eq.1 hk with hlt | rfl
    · -- an earlier list is not touched any more
      obtain ⟨hr, hz⟩ := ih (by omega) hlt
      have hm : ∀ x, freeListAt g k ≤ x → x < freeListAt g k + 24 →
          initListHead memLinks (setNrFree (initFreeLists m g n) (freeListAt g n) 0) (freeListAt g n) x =
            initFreeLists m g n x := by
        intro x h1 h2
        simp only [freeListAt] at *
        rw [initListHead_apart (by omega)]
        exact Mem.store_of_not_mem (by omega)
      refine ⟨hr.frame (fun x hx => ?_) (fun x hx => ?_), ?_⟩
      · rw [List.mem_singleton.1 hx]
        exact Mem.load_congr fun y h1 h2 => hm y (by omega) (by omega)
      · rw [List.mem_singleton.1 hx]
        exact Mem.load_congr fun y h1 h2 => hm y (by omega) (by omega)
      · rw [nrFree_congr fun x h1 h2 => hm x (by omega) h2, hz]
    · refine ⟨ring_initRing (nodes_lawful hl) (freeListAt_mem hn), ?_⟩
      rw [nrFree_congr fun x h1 _ => initListHead_apart (.inr h1)]
      exact Mem.load_store_of_lt (by norm_num)

/-- Where `init_buddy` puts the descriptors. -/
lemma initRegion_layout {imgEnd : ℕ} (hi : imgEnd < physMemEnd)
    (hg : g + 304 ≤ (Buddy.initRegion imgEnd).pageArrry) : Layout g (Buddy.initRegion imgEnd) := by
  obtain ⟨hle, -, hA, -, hN⟩ := initRegion_pages hi
  have hP : (Buddy.initRegion imgEnd).pageArrry = physToVirt (availablePhysMemStart imgEnd) := rfl
  refine ⟨hg, ?_⟩
  rw [hP, hN, hA, physToVirt, kbase, sizeofPage]
  omega

/-- With room for all descriptors, managed memory is not the allocator's. -/
lemma not_owns_managed {imgEnd : ℕ} (hi : imgEnd < physMemEnd)
    (hg : g + 304 ≤ (Buddy.initRegion imgEnd).pageArrry) (hfit : availablePages imgEnd % 129 ≠ 1) {x : ℕ}
    (hx : (Buddy.initRegion imgEnd).startAddr ≤ x) : ¬ Owns g (Buddy.initRegion imgEnd) x := by
  obtain ⟨hle, hres, hA, hF, hN⟩ := initRegion_pages hi
  have hfit' := (reserved_enough_iff imgEnd).2 hfit
  have hP : (Buddy.initRegion imgEnd).pageArrry = physToVirt (availablePhysMemStart imgEnd) := rfl
  have hS : (Buddy.initRegion imgEnd).startAddr = physToVirt (freePhysMemStart imgEnd) := rfl
  generalize availablePages imgEnd = a at *
  generalize reservedPages imgEnd = b at *
  have e1 : physToVirt ((258048 - a) * 4096) = (258048 - a) * 4096 + kbase :=
    Nat.mod_eq_of_lt (by rw [kbase]; omega)
  have e2 : physToVirt ((258048 - a + b) * 4096) = (258048 - a + b) * 4096 + kbase :=
    Nat.mod_eq_of_lt (by rw [kbase]; omega)
  rw [hS, hF, e2] at hx
  rw [hP, hA, e1] at hg
  rw [Owns, hP, hN, hA, e1, sizeofPage]
  omega

/-- `init_buddy` before `populate_page`: the bounds, empty lists and cleared descriptors. -/
lemma initRegion_refines {imgEnd : ℕ} (hl : Layout g (Buddy.initRegion imgEnd)) :
    Rep g (initRegion m g imgEnd) (Buddy.initRegion imgEnd) ∧
      ∀ x, ¬ Owns g (Buddy.initRegion imgEnd) x → initRegion m g imgEnd x = m x := by
  generalize hr : Buddy.initRegion imgEnd = r at hl
  have hb := hl.below
  have hS : r.startAddr = physToVirt (freePhysMemStart imgEnd) := by rw [← hr]; rfl
  have hZ : r.size = subWord availablePhysMemEnd (freePhysMemStart imgEnd) := by rw [← hr]; rfl
  have hP : r.pageArrry = physToVirt (availablePhysMemStart imgEnd) := by rw [← hr]; rfl
  have hN : r.pageNum = subWord availablePhysMemEnd (freePhysMemStart imgEnd) / pageSize := by
    rw [← hr]
    rfl
  have hlists : ∀ k, r.freeLists k = ⟨[], 0⟩ := fun k => by rw [← hr]; rfl
  have hpages : ∀ p, r.pages p = ⟨0, 0, 0⟩ := fun p => by rw [← hr]; rfl
  have hlt : ∀ x, physToVirt x < 2 ^ 64 := fun x => Nat.mod_lt _ (by norm_num)
  have hlt' : ∀ x y, subWord x y < 2 ^ 64 := fun x y => Nat.mod_lt _ (by norm_num)
  -- the words, before the lists and the descriptors are written
  generalize hm1 : ((((m.store g 8 (physToVirt (freePhysMemStart imgEnd))).store (g + 8) 8
    (subWord availablePhysMemEnd (freePhysMemStart imgEnd))).store (g + 16) 8
    (physToVirt (availablePhysMemStart imgEnd))).store (g + 24) 8
    (subWord availablePhysMemEnd (freePhysMemStart imgEnd) / pageSize)).store (g + 32) 4 0 = m1
  have hw1 : Words g m1 r := by
    refine ⟨?_, ?_, ?_, ?_⟩
    · rw [startAddr, ← hm1, hS, Mem.load_store_of_disjoint (by omega),
        Mem.load_store_of_disjoint (by omega), Mem.load_store_of_disjoint (by omega),
        Mem.load_store_of_disjoint (by omega), Mem.load_store_of_lt (hlt _)]
    · rw [size, ← hm1, hZ, Mem.load_store_of_disjoint (by omega),
        Mem.load_store_of_disjoint (by omega), Mem.load_store_of_disjoint (by omega),
        Mem.load_store_of_lt (hlt' _ _)]
    · rw [pageArrry, ← hm1, hP, Mem.load_store_of_disjoint (by omega),
        Mem.load_store_of_disjoint (by omega), Mem.load_store_of_lt (hlt _)]
    · rw [pageNum, ← hm1, hN, Mem.load_store_of_disjoint (by omega), Mem.load_store_of_lt]
      exact (Nat.div_le_self _ _).trans_lt (hlt' _ _)
  have hk1 : ∀ x, x < g ∨ g + 36 ≤ x → m1 x = m x := by
    intro x hx
    rw [← hm1, Mem.store_of_not_mem (by omega), Mem.store_of_not_mem (by omega),
      Mem.store_of_not_mem (by omega), Mem.store_of_not_mem (by omega), Mem.store_of_not_mem (by omega)]
  have hw2 : Words g (initFreeLists m1 g buddyMaxOrder) r :=
    hw1.congr fun x _ h2 => initFreeLists_apart (.inl (by omega))
  have e : initRegion m g imgEnd =
      (initFreeLists m1 g buddyMaxOrder).memset r.pageArrry 0 (r.pageNum * sizeofPage) := by
    rw [← hw2.pageArrry, hN, ← hm1]
    rfl
  have hk2 : ∀ x, x < r.pageArrry → initRegion m g imgEnd x = initFreeLists m1 g buddyMaxOrder x := by
    intro x hx
    rw [e]
    exact if_neg (by omega)
  refine ⟨⟨hw2.congr fun x _ h2 => hk2 x (by omega), fun k hk => ?_, fun p hp => ?_, ?_, ?_⟩, fun x hx => ?_⟩
  · rw [hlists, ← (initFreeLists_spec (m := m1) hl le_rfl hk).2]
    refine nrFree_congr fun x h1 h2 => hk2 x ?_
    simp only [freeListAt, buddyMaxOrder] at *
    omega
  · rw [hpages, e]
    have h1 : r.pageArrry ≤ descriptor r p := Nat.le_add_right _ _
    have h2 : descriptor r p + 32 ≤ r.pageArrry + r.pageNum * sizeofPage := by
      simp only [descriptor, sizeofPage]
      omega
    exact ⟨Mem.load_memset_zero (by omega) (by omega), Mem.load_memset_zero (by omega) (by omega),
      Mem.load_memset_zero (by omega) (by omega)⟩
  · intro hd xs hhd
    obtain ⟨k, hk, rfl, rfl⟩ := rings_eq_some hhd
    rw [hlists]
    have hm : ∀ x, freeListAt g k ≤ x → x < freeListAt g k + 16 →
        initRegion m g imgEnd x = initFreeLists m1 g buddyMaxOrder x := by
      intro x h1 h2
      refine hk2 x ?_
      simp only [freeListAt, buddyMaxOrder] at *
      omega
    refine (initFreeLists_spec (m := m1) hl le_rfl hk).1.frame (fun x hx => ?_) (fun x hx => ?_)
    · rw [List.mem_singleton.1 hx]
      exact Mem.load_congr fun y h1 h2 => hm y (by omega) (by omega)
    · rw [List.mem_singleton.1 hx]
      exact Mem.load_congr fun y h1 h2 => hm y (by omega) (by omega)
  · intro hd hd' xs ys hhd hhd' hne x hx hx'
    obtain ⟨k, hk, rfl, rfl⟩ := rings_eq_some hhd
    obtain ⟨j, hj, rfl, rfl⟩ := rings_eq_some hhd'
    rw [hlists] at hx hx'
    exact hne ((List.mem_singleton.1 hx).symm.trans (List.mem_singleton.1 hx'))
  · have h1 : ¬ (g ≤ x ∧ x < g + 304) := fun hh => hx (.inl hh)
    have h2 : ¬ (r.pageArrry ≤ x ∧ x < r.pageArrry + r.pageNum * sizeofPage) := fun hh => hx (.inr hh)
    rw [e]
    refine (if_neg h2).trans ?_
    rw [initFreeLists_apart (by simp only [buddyMaxOrder]; omega), hk1 x (by omega)]

/-- `init_buddy`. -/
lemma initBuddy_refines {imgEnd : ℕ} (h : HasAlignedPage (Buddy.initRegion imgEnd))
    (hl : Layout g (Buddy.initRegion imgEnd)) :
    ∃ s' m', Buddy.initBuddy imgEnd = .ok s' ∧ initBuddy m g imgEnd = .ok m' ∧ Rep g m' s' ∧
      SameBounds (Buddy.initRegion imgEnd) s' ∧
      ∀ x, ¬ Owns g (Buddy.initRegion imgEnd) x → m' x = m x := by
  obtain ⟨hr, hkeep⟩ := initRegion_refines (m := m) hl
  have hg := initRegion_geometry h
  obtain ⟨al, eal, hal, -, -⟩ := firstAlignedPage_spec hg h
  have hN : subWord availablePhysMemEnd (freePhysMemStart imgEnd) / pageSize =
      (Buddy.initRegion imgEnd).pageNum := rfl
  have hlists : ∀ k, (Buddy.initRegion imgEnd).freeLists k = ⟨[], 0⟩ := fun _ => rfl
  rw [Buddy.initBuddy, initBuddy, hN]
  generalize Buddy.initRegion imgEnd = r at *
  generalize initRegion m g imgEnd = m1 at *
  have hfirst : pageArrry m1 g = descriptor r 0 := by
    rw [hr.words.pageArrry, descriptor, Nat.zero_mul, Nat.add_zero]
  have hlast : descriptor r 0 + sizeofPage * r.pageNum = descriptor r r.pageNum := by
    rw [descriptor_add, Nat.zero_add]
  have hle : ¬ descriptor r r.pageNum ≤ descriptor r al := by
    simp only [descriptor, sizeofPage]
    omega
  have hempty : Between r al al := by
    refine ⟨fun k _ q hq => ?_, fun k _ => ?_, fun k _ => ?_⟩
    · rw [hlists] at hq
      exact absurd hq List.not_mem_nil
    · rw [hlists]
      exact List.nodup_nil
    · rw [hlists]
      rfl
  obtain ⟨hR, hi, hb, hhi⟩ := populateForward_refines buddyMaxOrder r.pageNum hr hl hg
    le_rfl hempty le_rfl le_rfl
  have hbd := hR.bounds
  have hR' := populateBackward_refines (buddyMaxOrder - 1) 0 hR.rep (hl.congr hbd)
    (hg.congr hbd.1 hbd.2.1 hbd.2.2.2) (by omega) hb (hal.le.trans hbd.2.2.2.ge) hhi
  rw [descriptor_congr hbd, descriptor_congr hbd] at hR'
  refine ⟨_, _, ?_, ?_, hR'.rep, hbd.trans hR'.bounds, fun x hx => ?_⟩
  · rw [Buddy.populatePage, eal, populateFrom, Nat.zero_add]
    have hle' : ¬ r.descriptorAddr (some r.pageNum) ≤ r.descriptorAddr (some al) := hle
    simp only [if_neg hle']
  · rw [populatePage, hfirst, hr.pageToVirt hg (by omega), hr.virtToPage, eal, hlast, descriptorAddr_some]
    simp only [if_neg hle]
    rw [if_neg (descriptor_ne_zero hl al)]
  · rw [(hR.trans hR').keeps x hx, hkeep x hx]

end Initial

/-! ## Runs -/

/-- The memory and the chunks that the callers hold. -/
structure Sys where
  mem : Mem
  out : List Block

/-- Memory in which the callers have written `w` to all bytes but the allocator's. -/
def scribble (g : ℕ) (m w : Mem) : Mem := fun x =>
  if (g ≤ x ∧ x < g + 304) ∨
    (pageArrry m g ≤ x ∧ x < pageArrry m g + pageNum m g * sizeofPage) then m x else w x

/-- The allocator driven by its callers. In an operation `(op, w)` they first write what they like to
the bytes that are not the allocator's, and then make the call; pages are named by their `pfn`. -/
def machine (g : ℕ) : Machine Fault Sys (Op × Mem) (Option ℕ) where
  enabled s op :=
    match op.1 with
    | .getPages order => order ≤ 10
    | .freePages page => ∃ b ∈ s.out, b.start = page
  exec s op :=
    match op.1 with
    | .getPages order =>
      buddyGetPages (scribble g s.mem op.2) g order >>= fun r =>
      if r.1 = 0 then .ok (none, ⟨r.2, s.out⟩)
      else .ok (some (pageToPfn r.2 g r.1), ⟨r.2, ⟨pageToPfn r.2 g r.1, order⟩ :: s.out⟩)
    | .freePages page =>
      buddyFreePages (scribble g s.mem op.2) g (pfnToPage (scribble g s.mem op.2) g page) >>= fun m =>
      .ok (none, ⟨m, s.out.filter fun b => b.start ≠ page⟩)

section Run

variable {g : ℕ} {r : Buddy} {t : Sys} {s : Buddy.Sys}

/-- Foreign writes leave the bytes of the allocator alone. -/
lemma scribble_of_owns {m : Mem} {b : Buddy} (h : Rep g m b) (w : Mem) {x : ℕ} (hx : Owns g b x) :
    scribble g m w x = m x := by
  rw [scribble, h.words.pageArrry, h.words.pageNum]
  exact if_pos hx

/-- Foreign writes may change every other byte. -/
lemma scribble_of_not_owns {m : Mem} {b : Buddy} (h : Rep g m b) (w : Mem) {x : ℕ} (hx : ¬ Owns g b x) :
    scribble g m w x = w x := by
  rw [scribble, h.words.pageArrry, h.words.pageNum]
  exact if_neg hx

/-- The memory of a run and the state of `Buddy.machine` it stands for. -/
structure Related (g : ℕ) (r : Buddy) (t : Sys) (s : Buddy.Sys) : Prop where
  rep : Rep g t.mem s.buddy
  out : t.out = s.out
  good : Good r s

/-- One call: both machines return the same, and only the allocator's bytes are changed. -/
lemma step_refines (hl : Layout g r) (h : Related g r t s) {op : Op × Mem}
    (hen : (machine g).enabled t op) :
    ∃ o t' s', (machine g).exec t op = .ok (o, t') ∧ Buddy.machine.enabled s op.1 ∧
      Buddy.machine.exec s op.1 = .ok (o, s') ∧ Related g r t' s' ∧
      ∀ x, ¬ Owns g r x → t'.mem x = op.2 x := by
  obtain ⟨hrep, hout, hgood⟩ := h
  obtain ⟨op, w⟩ := op
  have hl' : Layout g s.buddy := hl.congr hgood.bounds
  have hrep' : Rep g (scribble g t.mem w) s.buddy := hrep.congr fun x hx => scribble_of_owns hrep w hx
  have hkeeps : ∀ {m' b}, Refines g (scribble g t.mem w) s.buddy m' b →
      ∀ x, ¬ Owns g r x → m' x = w x := by
    intro m' b hR x hx
    have hx' : ¬ Owns g s.buddy x := fun ho => hx ((owns_congr hgood.bounds x).1 ho)
    rw [hR.keeps x hx', scribble_of_not_owns hrep w hx']
  cases op with
  | getPages k =>
    have hk : k ≤ 10 := hen
    obtain ⟨o, b, m', e, e', hR⟩ := buddyGetPages_refines hrep' hl' hgood.inv (Nat.lt_succ_of_le hk)
    cases o with
    | none =>
      rcases hgood.getPages hk with ⟨ex, -⟩ | ⟨p, u, ex, -, -⟩
      · have hb : b = s.buddy := by
          simp only [Buddy.machine, e, ok_bind] at ex
          exact congrArg Buddy.Sys.buddy (Prod.mk.inj (Except.ok.inj ex)).2
        subst hb
        refine ⟨none, ⟨m', t.out⟩, s, ?_, hk, ex, ⟨hR.rep, hout, hgood⟩, hkeeps hR⟩
        simp only [machine, e', ok_bind]
        rfl
      · simp only [Buddy.machine, e, ok_bind] at ex
        cases ex
    | some p =>
      rcases hgood.getPages hk with ⟨ex, -⟩ | ⟨q, u, ex, hgood', -⟩
      · simp only [Buddy.machine, e, ok_bind] at ex
        cases ex
      · have hpu : p = q ∧ b = u := by
          simp only [Buddy.machine, e, ok_bind] at ex
          cases ex
          exact ⟨rfl, rfl⟩
        obtain ⟨rfl, rfl⟩ := hpu
        have hpfn : pageToPfn m' g (descriptor s.buddy p) = p := by
          rw [← descriptor_congr hR.bounds]
          exact hR.rep.pageToPfn
        refine ⟨some p, ⟨m', ⟨p, k⟩ :: t.out⟩, _, ?_, hk, ex, ⟨hR.rep, by rw [hout], hgood'⟩, hkeeps hR⟩
        simp only [machine, e', ok_bind, descriptorAddr_some]
        rw [if_neg (descriptor_ne_zero hl' p), hpfn]
  | freePages p =>
    obtain ⟨c, hc, rfl⟩ : ∃ c ∈ t.out, c.start = p := hen
    rw [hout] at hc
    have hset : insert c (s.held \ {c}) = s.held := by
      rw [Set.insert_sdiff_singleton]
      exact Set.insert_eq_of_mem hc
    have hinv := hgood.inv
    rw [← hset] at hinv
    obtain ⟨b, m', e, e', hR⟩ := buddyFreePages_refines hrep' hl' hinv fun hh => hh.2 rfl
    obtain ⟨u, ex, hgood', -⟩ := hgood.freePages hc
    have hb : b = u := by
      simp only [Buddy.machine, e, ok_bind] at ex
      cases ex
      rfl
    subst hb
    have haddr : pfnToPage (scribble g t.mem w) g c.start = descriptor s.buddy c.start := by
      rw [pfnToPage, hrep'.words.pageArrry, Nat.mul_comm]
      rfl
    refine ⟨none, ⟨m', s.out.filter fun d => d.start ≠ c.start⟩, _, ?_, ⟨c, hc, rfl⟩, ex,
      ⟨hR.rep, rfl, hgood'⟩, hkeeps hR⟩
    simp only [machine, haddr, e', ok_bind, hout]

/-- The byte-level allocator takes the steps of its model. -/
lemma machine_simulates (hl : Layout g r) :
    (machine g).Simulates (Buddy.machine.comap Prod.fst) (Related g r) := by
  intro t s op hR hen
  obtain ⟨o, t', s', e, hen', e', hR', -⟩ := step_refines hl hR hen
  exact ⟨o, t', s', e, hen', e', hR'⟩

end Run

/-- The allocator over the bytes of memory refines `Buddy.machine`, for any contents of memory at the
start and whatever the callers write, between calls, to the bytes that are not the allocator's: a run
returns the same pages as its model, memory represents the state of the model, every call returns, and no
call writes to a byte outside `memory_region_g` and the descriptors. If there is room for all
descriptors, the chunks that are held consist of such bytes. -/
theorem buddy_memory_refines {imgEnd g : ℕ} (h : HasAlignedPage (Buddy.initRegion imgEnd))
    (hi : imgEnd < physMemEnd) (hg : g + 304 ≤ (Buddy.initRegion imgEnd).pageArrry) (m : Mem) :
    ∃ m₀ s₀, initBuddy m g imgEnd = .ok m₀ ∧ Buddy.initBuddy imgEnd = .ok s₀ ∧
      (∀ x, ¬ Owns g (Buddy.initRegion imgEnd) x → m₀ x = m x) ∧
      ∀ ops os t, (machine g).Run ⟨m₀, []⟩ ops os t →
        (∃ s, Buddy.machine.Run ⟨s₀, []⟩ (ops.map Prod.fst) os s ∧ Rep g t.mem s.buddy ∧
          t.out = s.out) ∧
        (∀ op, (machine g).enabled t op → ∃ o t', (machine g).exec t op = .ok (o, t') ∧
          ∀ x, ¬ Owns g (Buddy.initRegion imgEnd) x → t'.mem x = op.2 x) ∧
        (availablePages imgEnd % 129 ≠ 1 → ∀ b ∈ t.out, ∀ i < buddyChunkSize b.order,
          ¬ Owns g (Buddy.initRegion imgEnd) ((Buddy.initRegion imgEnd).pageToVirt b.start + i)) := by
  have hl := initRegion_layout hi hg
  obtain ⟨s₀, m₀, e, e', hrep, -, hkeep⟩ := initBuddy_refines (m := m) h hl
  obtain ⟨s₁, e₁, hgood⟩ := initBuddy_good h
  rw [e] at e₁
  cases e₁
  refine ⟨m₀, s₀, e', e, hkeep, fun ops os t run => ?_⟩
  obtain ⟨s, run', hR⟩ := (machine_simulates hl).run run ⟨hrep, rfl, hgood⟩
  refine ⟨⟨s, run'.of_comap, hR.rep, hR.out⟩, fun op hen => ?_, fun hfit b _ i _ => ?_⟩
  · obtain ⟨o, t', s', ex, -, -, -, hx⟩ := step_refines hl hR hen
    exact ⟨o, t', ex, hx⟩
  · refine not_owns_managed hi hg hfit ?_
    rw [Buddy.pageToVirt, Nat.add_assoc]
    exact Nat.le_add_right _ _

/-- The statement for the first call, with the region variable at the start of the linear map and
cleared memory. -/
theorem buddy_memory_refines_first :
    HasAlignedPage (Buddy.initRegion (physMemEnd - 0x500000)) ∧
    physMemEnd - 0x500000 < physMemEnd ∧
    kbase + 304 ≤ (Buddy.initRegion (physMemEnd - 0x500000)).pageArrry ∧
    ∃ m₀, initBuddy (fun _ => 0) kbase (physMemEnd - 0x500000) = .ok m₀ ∧
      ∃ o t, (machine kbase).exec ⟨m₀, []⟩ (.getPages 3, fun _ => 7) = .ok (o, t) := by
  have hi : physMemEnd - 0x500000 < physMemEnd := by decide
  have hg : kbase + 304 ≤ (Buddy.initRegion (physMemEnd - 0x500000)).pageArrry := by decide
  obtain ⟨m₀, s₀, e, -, -, hrun⟩ := buddy_memory_refines hasAlignedPage_five_mb hi hg fun _ => 0
  obtain ⟨-, hstep, -⟩ := hrun [] [] _ .nil
  obtain ⟨o, t, ex, -⟩ := hstep (.getPages 3, fun _ => 7) (show 3 ≤ 10 by norm_num)
  exact ⟨hasAlignedPage_five_mb, hi, hg, m₀, e, o, t, ex⟩

end KingdoKernel.MemRegion
