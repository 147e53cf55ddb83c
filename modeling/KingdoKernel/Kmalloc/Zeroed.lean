import KingdoKernel.Kmalloc.OutOfMemory

/-!
# What `kzalloc` clears

`kzalloc` is to return cleared memory, but its test is the wrong way round: it calls `memset` when
`kmalloc` has *not* returned a block. A block is then handed out as it was found, and a request that
cannot be served writes zeros from `NULL` on. `Clears` says what a call is to do.

What a block holds can be told before the call: `Kernel.nextBlock` is the block that will be handed out
unless a new slab has to be made, and the first block of a new slab is never cleared, since it holds the
link to the second one (`Content`).

* `kzalloc_clears_iff`: in every reached state a call does what it is to do exactly when nothing is asked
  for or the block to come is clear already.
* `kzalloc_dirty`: both failures right after the start.
-/

namespace KingdoKernel

namespace Buddy

/-- The first chunk of the first list that is not empty, from order `k` on. -/
def firstChunk (s : Buddy) (k : ℕ) : Option ℕ :=
  (List.range' k (buddyMaxOrder - k)).findSome? fun j => (s.freeLists j).freeList.head?

end Buddy

namespace Kernel
open Slab Buddy

/-- The block that a request of `size` bytes will get, if it is there already: the first free block of
the current slab, or the first chunk that is large enough. -/
def nextBlock (k : Kernel) (size : ℕ) : Option ℕ :=
  if size ≤ slabOrderToSize maxSlabBlockOrder then
    (sizeToSlabOrder size).bind fun order =>
      if k.current (k.slabContainer order) = 0 then none
      else some (k.mem.load (k.current (k.slabContainer order) + 8) 8)
  else (sizeToPageOrder size).bind fun order => (k.buddy.firstChunk order).map k.buddy.pageToVirt

/-- The block that a request of `size` bytes will get is there already and holds zeros. -/
def NextIsClear (k : Kernel) (size : ℕ) : Prop :=
  ∃ p, k.nextBlock size = some p ∧ ∀ x, p ≤ x → x < p + size → k.mem x = 0

/-- What `kmalloc(size)` has returned: `NULL`, a block as it was before the call, or the first block of
a new slab, not all of which is zero. -/
inductive Content (K : Kernel) (size p : ℕ) (K' : Kernel) : Prop where
  | null : p = 0 → K.nextBlock size = none → Content K size p K'
  | kept : p ≠ 0 → K.nextBlock size = some p → (∀ x, p ≤ x → x < p + size → K'.mem x = K.mem x) →
      Content K size p K'
  | linked : p ≠ 0 → K.nextBlock size = none → (∃ x, p ≤ x ∧ x < p + size ∧ K'.mem x ≠ 0) →
      Content K size p K'

end Kernel

namespace Kmalloc
open Slab Buddy Tiles ListHead Kernel

namespace Sys

/-- The bytes of the allocators: `slab_pool_g`, and in the pages of slabs what callers do not hold. The
descriptors of the pages are not part of this memory. -/
def Metadata (S : Sys) (x : ℕ) : Prop :=
  (S.kernel.slabPoolG ≤ x ∧ x < S.kernel.slabPoolG + 192) ∨
    (∃ page, S.kernel.buddy.virtToPage x = some page ∧ (S.kernel.buddy.pages page).slab ≠ 0) ∧
      ∀ a ∈ S.live, a.Valid → x ∉ a.extent.pages

end Sys

/-- What `kzalloc(size)` is to do: it returns, a block that it returns is clear, and whatever the bytes
that are not the allocators' hold, it leaves all of them alone that are not in the block. -/
structure Clears (S : Sys) (size : ℕ) : Prop where
  zeroed : ∃ p K', S.kernel.kzalloc size = .ok (p, K') ∧
    (isValidPtr p → ∀ x, p ≤ x → x < p + size → K'.mem x = 0)
  confined : ∀ m, (∀ x, S.Metadata x → m x = S.kernel.mem x) →
    ∃ p K', (S.kernel.withMem m).kzalloc size = .ok (p, K') ∧
      ∀ x, ¬ (S.take K' ⟨p, size, .kmalloc⟩).Metadata x →
        ¬ (isValidPtr p ∧ p ≤ x ∧ x < p + 2 ^ sizeClass size) → K'.mem x = m x

variable {img : Image} {S S' : Sys} {h h' : Heap} {pages : Set Block} {K K' : Kernel} {size k p x : ℕ}

/-! ## The block that is handed out -/

/-- `Kernel.nextBlock`, by size. -/
lemma nextBlock_slab (K : Kernel) (h0 : 0 < size) (h1 : size ≤ 2048) :
    K.nextBlock size =
      if K.current (K.slabContainer (sizeClass size)) = 0 then none
      else some (K.mem.load (K.current (K.slabContainer (sizeClass size)) + 8) 8) := by
  rw [nextBlock, slabOrderToSize_max, if_pos h1, sizeToSlabOrder_eq h0 h1, Option.bind_some]

/-- The next chunk of a size above the slabs. -/
lemma nextBlock_pages (K : Kernel) (h1 : 2048 < size) (h2 : size ≤ 2 ^ 22) :
    K.nextBlock size = (K.buddy.firstChunk (sizeClass size - 12)).map K.buddy.pageToVirt := by
  rw [nextBlock, slabOrderToSize_max, if_neg (not_le.2 h1), sizeToPageOrder_eq h1 h2, Option.bind_some]

/-- There is no next block above the largest chunk. -/
lemma nextBlock_large (K : Kernel) (h : 2 ^ 22 < size) : K.nextBlock size = none := by
  have hnone : sizeToPageOrder size = none := if_pos (.inr h)
  rw [nextBlock, slabOrderToSize_max, if_neg (by omega), hnone, Option.bind_none]

/-- A link to the next block is not zero in the bytes that were asked for. -/
lemma exists_ne_zero_of_link {m : Mem} (h0 : 0 < size) (hp : p % 2 ^ 17 = 2 ^ sizeClass size)
    (hl : m.load p 8 = p + 2 ^ sizeClass size) : ∃ x, p ≤ x ∧ x < p + size ∧ m x ≠ 0 := by
  by_contra hno
  push Not at hno
  by_cases h8 : 8 ≤ size
  · have hz : m.load p 8 = 0 := Mem.load_eq_zero fun x h1 h2 => hno x h1 (by omega)
    have hpos : 0 < 2 ^ sizeClass size := by positivity
    omega
  · -- the lowest byte of the link is `0x80`
    have hc : sizeClass size = 6 := by
      refine max_eq_left (Nat.clog_le_of_le_pow ?_)
      omega
    rw [hc] at hp hl
    have hbyte := hno p le_rfl (by omega)
    rw [Mem.load, hbyte] at hl
    simp only [UInt8.toNat_zero] at hl
    omega

/-- `__slab_alloc`, with the contents of the block. -/
lemma Good.slab_content (hg : Good img S h) (hi : Heap.Inv S.kernel.slabPoolG h pages) (h0 : 0 < size)
    (h1 : size ≤ 2048) (e : h.alloc (sizeClass size) = .ok (p, h')) :
    ∃ K', S.kernel.__slabAlloc (sizeClass size) = .ok (p, K') ∧
      Writes S.kernel (fun x => h'.pool.Owns S.kernel.slabPoolG x ∨
        (p ≤ x ∧ x < p + 2 ^ sizeClass size)) K' ∧ Content S.kernel size p K' := by
  obtain ⟨h6, h11⟩ := sizeClass_le_eleven h1
  have hsize : size ≤ 2 ^ sizeClass size := (sizeClass_isLeast (h1.trans (by norm_num))).1.2
  obtain ⟨K', e', -, hw, hlink⟩ := allocOrder_refines hg.rep hi h6 h11 e
  refine ⟨K', e', hw.mono fun x hx => hx.imp_right And.right, ?_⟩
  have hzero := hg.current_eq_zero hi h6 h11
  have hnext := nextBlock_slab S.kernel h0 h1
  cases hcur : (h.pool.container (sizeClass size)).current with
  | none =>
    rw [if_pos (hzero.2 hcur)] at hnext
    by_cases hp : p = 0
    · exact .null hp hnext
    · obtain ⟨hmod, hl⟩ := hlink hcur hp
      exact .linked hp hnext (exists_ne_zero_of_link h0 hmod hl)
  | some s =>
    obtain ⟨b, l, hs⟩ := hi.current_free hcur
    have etake : h.take (sizeClass size) s = .ok (p, h') := by
      rw [Heap.alloc, hcur] at e
      exact e
    have hb := Heap.take_fst hs etake
    obtain ⟨c, h1, e1, hgave⟩ := Heap.take_spec hi h6 h11 hcur
    rw [etake] at e1
    cases e1
    have hlive : (⟨p, sizeClass size⟩ : Block) ∈ h'.pool.live := hgave.live ▸ Set.mem_insert _ _
    refine .kept hgave.ne_zero ?_ fun x hx1 hx2 => hw.mem x ?_
    · rw [hnext, if_neg fun e0 => Option.some_ne_none s (hcur.symm.trans (hzero.1 e0)),
        current_refines hg.rep h6 h11, hcur, hb]
      exact congrArg some (hg.rep.pool.header s _ hs).chain.1
    · rintro (ho | ⟨hc, -⟩)
      · have hx : x < p + 2 ^ sizeClass size := by omega
        exact hgave.inv.layout.not_owns hlive ⟨hx1, hx⟩ ho
      · rw [hcur] at hc
        cases hc

/-- `get_pages`, with the contents of the chunk. -/
lemma Good.pages_content (hg : Good img S h) (hi : Heap.Inv S.kernel.slabPoolG h pages)
    (h1 : 2048 < size) (h2 : size ≤ 2 ^ 22) (e : h.getPages (sizeClass size - 12) = .ok (p, h')) :
    ∃ K', S.kernel.getPages (sizeClass size - 12) = .ok (p, K') ∧
      Writes S.kernel (fun x => h'.pool.Owns S.kernel.slabPoolG x ∨
        (p ≤ x ∧ x < p + 2 ^ sizeClass size)) K' ∧ Content S.kernel size p K' := by
  have hord := sizeClass_ge_twelve h1 h2
  have hk : sizeClass size - 12 < buddyMaxOrder := by
    rw [buddyMaxOrder]
    omega
  have hnext : S.kernel.nextBlock size =
      ((h.buddy.lists.pop (buddyMaxOrder - (sizeClass size - 12)) (sizeClass size - 12)).map
        Prod.fst).map h.buddy.pageToVirt := by
    rw [nextBlock_pages S.kernel h1 h2, hg.rep.buddy, Lists.pop_fst]
    rfl
  rw [Heap.getPages] at e
  rw [getPages, hg.rep.buddy]
  rcases buddyGetPages_pop hk hi.buddy with ⟨eb, hex⟩ | ⟨c, bud, eb, hf, -, -, hpop⟩
  · rw [eb] at e ⊢
    cases e
    refine ⟨_, rfl, (Writes.refl _ _).withBuddy, .null rfl ?_⟩
    rw [hnext, hex.pop (by omega)]
    rfl
  · rw [eb] at e ⊢
    cases e
    refine ⟨_, rfl, (Writes.refl _ _).withBuddy, .kept ?_ ?_ fun _ _ _ => rfl⟩
    · have hab := hi.above
      rw [hf.pageToVirt, pageToVirt]
      omega
    · rw [hnext, hpop, hf.pageToVirt]
      rfl

/-- `kmalloc`, with the contents of the block. -/
lemma Good.kmalloc_content (hg : Good img S h) (h0 : 0 < size) (e : h.kmalloc size = .ok (p, h')) :
    ∃ K', S.kernel.kmalloc size = .ok (p, K') ∧ Good img (S.take K' ⟨p, size, .kmalloc⟩) h' ∧
      Writes S.kernel (fun x => h'.pool.Owns S.kernel.slabPoolG x ∨
        (p ≤ x ∧ x < p + 2 ^ sizeClass size)) K' ∧ Content S.kernel size p K' := by
  obtain ⟨pages, hi, -⟩ := hg.held
  obtain ⟨o, S', h₁, e₁, e₂, hg', -⟩ := step_kmalloc hg size
  obtain ⟨⟨q, K'⟩, ek, e₁⟩ := bind_eq_ok.1 e₁
  cases e₁
  simp only [heapMachine, e, ok_bind, pure_eq_ok, Except.ok.injEq, Prod.mk.injEq, Option.some.injEq] at e₂
  obtain ⟨rfl, rfl⟩ := e₂
  refine ⟨K', ek, hg', ?_⟩
  rw [Heap.kmalloc, if_neg (by omega)] at e
  by_cases h1 : size ≤ 2048
  · rw [if_pos h1, Heap.slabAlloc, sizeToSlabOrder_eq h0 h1] at e
    obtain ⟨K₁, e₁, hw, hc⟩ := hg.slab_content hi h0 h1 e
    rw [kmalloc_slab S.kernel h0 h1, slabAlloc, sizeToSlabOrder_eq h0 h1] at ek
    cases ek.symm.trans e₁
    exact ⟨hw, hc⟩
  · rw [if_neg h1] at e
    by_cases h2 : size ≤ 2 ^ 22
    · rw [if_pos h2] at e
      obtain ⟨K₁, e₁, hw, hc⟩ := hg.pages_content hi (not_le.1 h1) h2 e
      rw [kmalloc_pages S.kernel (not_le.1 h1) h2] at ek
      cases ek.symm.trans e₁
      exact ⟨hw, hc⟩
    · rw [kmalloc_large S.kernel (not_le.1 h2)] at ek
      cases ek
      exact ⟨Writes.refl _ _, .null rfl (nextBlock_large S.kernel (not_le.1 h2))⟩

/-- `kmalloc` of a heap returns, and what it returns is `NULL` or a valid pointer. -/
lemma Good.heap_kmalloc (hg : Good img S h) (h0 : 0 < size) :
    ∃ p h', h.kmalloc size = .ok (p, h') ∧ (p ≠ 0 → isValidPtr p) := by
  obtain ⟨pages, hi, -⟩ := hg.held
  by_cases h1 : size ≤ 2 ^ 22
  · rcases Heap.kmalloc_spec hi h0 h1 with e | ⟨p, h', pages', e, ht, -⟩
    · exact ⟨0, h, e, fun hp => absurd rfl hp⟩
    · refine ⟨p, h', e, fun _ => decide_eq_true ?_⟩
      refine valid_of_mem (a := ⟨p, size, .kmalloc⟩) ht.inv.toCore ?_
      rw [ht.extents]
      exact Set.mem_insert _ _
  · refine ⟨0, h, ?_, fun hp => absurd rfl hp⟩
    rw [Heap.kmalloc, if_neg (by omega), if_neg (by omega), if_neg h1]

/-! ## What a call does -/

/-- Which bytes are the allocators' depends neither on their contents nor on the record of refills. -/
lemma metadata_withMem {m : Mem} {l : List Alloc} (r r' : ℕ → Bool) :
    Sys.Metadata ⟨K.withMem m, l, r⟩ x ↔ Sys.Metadata ⟨K, l, r'⟩ x := Iff.rfl

/-- The bytes that represent the heap are the allocators'. -/
lemma Good.metadata_of_owns (hg : Good img S h) (hx : h.pool.Owns S.kernel.slabPoolG x) :
    S.Metadata x := by
  obtain ⟨pages, hi, hext⟩ := hg.held
  rcases id hx with hp | ⟨s, σ, hs, hb⟩
  · exact .inl hp
  · obtain ⟨hlo, hhi⟩ := (hi.layout.slabs s σ hs).owned_bounds hb
    obtain ⟨page, e, hslab⟩ := hi.toCore.slab_of_mem hs hlo hhi
    refine .inr ⟨⟨page, ?_, ?_⟩, fun a ha hv hxa => ?_⟩
    · rw [hg.rep.buddy]
      exact e
    · rw [hg.rep.buddy, hslab]
      exact (slab_address hi.layout hs).1
    · exact hi.toCore.extents_not_owns ((hext _).1 (mem_extents.2 ⟨a, ha, hv, rfl⟩)) hxa hx

/-- There is nothing of the allocators at `NULL`. -/
lemma Good.not_metadata_null (hg : Good img S h) (hpool : img.slabPoolG ≠ 0) : ¬ S.Metadata 0 := by
  obtain ⟨pages, hi, -⟩ := hg.held
  rintro (⟨h1, -⟩ | ⟨⟨page, e, -⟩, -⟩)
  · rw [hg.slabPoolG] at h1
    omega
  · rw [hg.rep.buddy, virtToPage_zero hi.toCore] at e
    cases e

/-- `kzalloc` that gets memory clears nothing. -/
lemma kzalloc_of_valid (e : K.kmalloc size = .ok (p, K')) (hp : isValidPtr p) :
    K.kzalloc size = .ok (p, K') := by
  rw [kzalloc, e, ok_bind]
  simp only [hp, Bool.not_true, Bool.false_eq_true, if_false, pure_eq_ok]

/-- A request that cannot be served is cleared nonetheless. -/
lemma kzalloc_of_null (e : K.kmalloc size = .ok (0, K')) :
    K.kzalloc size = .ok (0, K'.withMem (K'.mem.memset 0 0 size)) := by
  rw [kzalloc, e, ok_bind]
  rfl

/-- `kzalloc(0)` is `kmalloc(0)`. -/
lemma kzalloc_zero (K : Kernel) : K.kzalloc 0 = .ok (zeroSizePtr, K) := by
  have hm : K.mem.memset zeroSizePtr 0 0 = K.mem := funext fun x => if_neg (by omega)
  rw [kzalloc, kmalloc, if_pos rfl, ok_bind]
  simp only [hm, withMem, ite_self, pure_eq_ok]

/-- Asking for nothing changes nothing. -/
lemma clears_zero (S : Sys) : Clears S 0 := by
  refine ⟨⟨zeroSizePtr, S.kernel, kzalloc_zero _, fun _ x h1 h2 => ?_⟩, fun m _ => ?_⟩
  · exact absurd h2 (not_lt.2 h1)
  · exact ⟨zeroSizePtr, S.kernel.withMem m, kzalloc_zero _, fun _ _ _ => rfl⟩

/-- A request that is served leaves the bytes alone that are neither the allocators' nor in the block. -/
lemma Good.confined (hg : Good img S h) (h0 : 0 < size) (e : h.kmalloc size = .ok (p, h'))
    (hp : isValidPtr p) {m : Mem} (hm : ∀ x, S.Metadata x → m x = S.kernel.mem x) :
    ∃ K', (S.kernel.withMem m).kzalloc size = .ok (p, K') ∧
      ∀ x, ¬ (S.take K' ⟨p, size, .kmalloc⟩).Metadata x →
        ¬ (isValidPtr p ∧ p ≤ x ∧ x < p + 2 ^ sizeClass size) → K'.mem x = m x := by
  obtain ⟨K', ek, hg', hw, -⟩ :=
    (hg.withMem fun x hx => hm x (hg.metadata_of_owns hx)).kmalloc_content h0 e
  refine ⟨K', kzalloc_of_valid ek hp, fun x hx hout => hw.mem x ?_⟩
  rintro (ho | hb)
  · have hbase : K'.slabPoolG = S.kernel.slabPoolG := hw.slabPoolG
    have hown : h'.pool.Owns K'.slabPoolG x := by
      rw [hbase]
      exact ho
    exact hx ((metadata_withMem (m := K'.mem) _ _).1 (hg'.metadata_of_owns hown))
  · exact hout ⟨hp, hb⟩

/-- A block that is clear already is returned, and nothing else is written to. -/
lemma Good.clears_of_clear (hg : Good img S h) (h0 : 0 < size) (hn : S.kernel.NextIsClear size) :
    Clears S size := by
  obtain ⟨q, hq, hclear⟩ := hn
  obtain ⟨p, h', e, hvalid⟩ := hg.heap_kmalloc h0
  obtain ⟨K', ek, -, -, hc⟩ := hg.kmalloc_content h0 e
  cases hc with
  | null _ hnext =>
    rw [hq] at hnext
    cases hnext
  | linked _ hnext _ =>
    rw [hq] at hnext
    cases hnext
  | kept hp hnext hkeep =>
    rw [hq] at hnext
    cases hnext
    refine ⟨⟨q, K', kzalloc_of_valid ek (hvalid hp), fun _ x h1 h2 => ?_⟩, fun m hm => ?_⟩
    · rw [hkeep x h1 h2, hclear x h1 h2]
    · obtain ⟨K₁, e₁, hsame⟩ := hg.confined h0 e (hvalid hp) hm
      exact ⟨q, K₁, e₁, hsame⟩

/-- Nothing else does. -/
lemma Good.clear_of_clears (hg : Good img S h) (hpool : img.slabPoolG ≠ 0) (h0 : 0 < size)
    (hcl : Clears S size) : S.kernel.NextIsClear size := by
  obtain ⟨p, h', e, hvalid⟩ := hg.heap_kmalloc h0
  obtain ⟨K', ek, -, -, hc⟩ := hg.kmalloc_content h0 e
  cases hc with
  | null hp _ =>
    -- the first byte that `memset` writes is neither the allocators' nor a caller's
    subst hp
    have hnot := hg.not_metadata_null hpool
    have hne : ∀ x, S.Metadata x → Function.update S.kernel.mem 0 1 x = S.kernel.mem x := by
      intro x hx
      refine Function.update_of_ne ?_ _ _
      rintro rfl
      exact hnot hx
    obtain ⟨q, K₁, e₁, hsame⟩ := hcl.confined _ hne
    obtain ⟨K₂, ek₂, hg₂, -⟩ := (hg.withMem fun x hx => hne x (hg.metadata_of_owns hx)).kmalloc_content
      h0 e
    rw [kzalloc_of_null ek₂] at e₁
    cases e₁
    have hbyte := hsame 0 ((metadata_withMem _ _).not.2 (hg₂.not_metadata_null hpool))
      fun hv => absurd hv.1 (by decide)
    rw [Function.update_self] at hbyte
    have hzero : K₂.mem.memset 0 0 size 0 = 0 := if_pos ⟨le_rfl, by omega⟩
    exact absurd (hzero.symm.trans hbyte) (by decide)
  | kept hp hnext hkeep =>
    obtain ⟨q, K₁, e₁, hz⟩ := hcl.zeroed
    rw [kzalloc_of_valid ek (hvalid hp)] at e₁
    cases e₁
    exact ⟨p, hnext, fun x h1 h2 => (hkeep x h1 h2).symm.trans (hz (hvalid hp) x h1 h2)⟩
  | linked hp _ hx =>
    obtain ⟨q, K₁, e₁, hz⟩ := hcl.zeroed
    rw [kzalloc_of_valid ek (hvalid hp)] at e₁
    cases e₁
    obtain ⟨x, h1, h2, hne⟩ := hx
    exact absurd (hz (hvalid hp) x h1 h2) hne

/-- What `kzalloc` does, in one state. -/
lemma Good.clears_iff (hg : Good img S h) (hpool : img.slabPoolG ≠ 0) (size : ℕ) :
    Clears S size ↔ size = 0 ∨ S.kernel.NextIsClear size := by
  by_cases h0 : size = 0
  · subst h0
    exact iff_of_true (clears_zero S) (.inl rfl)
  · have hpos : 0 < size := Nat.pos_of_ne_zero h0
    exact ⟨fun hc => .inr (hg.clear_of_clears hpool hpos hc),
      fun hn => hg.clears_of_clear hpos (hn.resolve_left h0)⟩

/-! ## Runs -/

/-- The operations of callers, `kzalloc` among them. -/
inductive Request where
  | op (op : Op)
  | kzalloc (size : ℕ)

/-- The allocators driven by callers that also use `kzalloc`. A run ends before `kzalloc` writes through
`NULL`. -/
def clearingMachine : Machine Fault Sys Request (Option ℕ) where
  enabled S r :=
    match r with
    | .op op => machine.enabled S op
    | .kzalloc size => ∀ K', S.kernel.kmalloc size ≠ .ok (0, K')
  exec S r :=
    match r with
    | .op op => machine.exec S op
    | .kzalloc size => do
      let (p, K) ← S.kernel.kzalloc size
      pure (some p, S.take K ⟨p, size, .kmalloc⟩)

/-- A request of `kzalloc` that is served is one of `kmalloc`. -/
lemma Good.kzalloc_eq_kmalloc (hg : Good img S h) (hs : ∀ K', S.kernel.kmalloc size ≠ .ok (0, K')) :
    S.kernel.kzalloc size = S.kernel.kmalloc size := by
  by_cases h0 : size = 0
  · rw [h0, kzalloc_zero, kmalloc, if_pos rfl]
  · obtain ⟨p, h', e, hvalid⟩ := hg.heap_kmalloc (Nat.pos_of_ne_zero h0)
    obtain ⟨K', ek, -⟩ := hg.kmalloc_content (Nat.pos_of_ne_zero h0) e
    have hp : p ≠ 0 := by
      rintro rfl
      exact hs K' ek
    rw [kzalloc_of_valid ek (hvalid hp), ek]

/-- Every reached state is represented by a heap. -/
lemma clearingMachine_sound (img : Image) : clearingMachine.Sound fun S => ∃ h, Good img S h := by
  rintro S r ⟨h, hg⟩ hen
  cases r with
  | op op =>
    obtain ⟨o, S', h', e, -, hg', -⟩ := step hg hen
    exact ⟨o, S', e, h', hg'⟩
  | kzalloc size =>
    obtain ⟨o, S', h', e, -, hg', -⟩ := step_kmalloc hg size
    refine ⟨o, S', ?_, h', hg'⟩
    rw [← e]
    simp only [clearingMachine, machine, hg.kzalloc_eq_kmalloc hen]

/-- A run without `kzalloc`. -/
lemma clearing_run {ops : List Op} {os : List (Option ℕ)} (r : machine.Run S ops os S') :
    clearingMachine.Run S (ops.map .op) os S' := by
  induction r with
  | nil => exact .nil
  | cons hen hex _ ih => exact .cons hen hex ih

/-- The last free block of a slab links to none: its first eight bytes are clear. -/
lemma Filling.nextIsClear {s : ℕ} (hf : Filling h k s 1) (hsv : Heap.Serves size k) (h8 : size ≤ 8)
    (hg : Good img S h) : S.kernel.NextIsClear size := by
  obtain ⟨hc, ⟨l, hs, hlen⟩, -⟩ := hf
  obtain ⟨b, rfl⟩ := List.length_eq_one_iff.1 hlen
  obtain ⟨h0, h1, rfl⟩ := hsv
  obtain ⟨pages, hi, -⟩ := hg.held
  obtain ⟨h6, h11⟩ := sizeClass_le_eleven h1
  have hcur : S.kernel.current (S.kernel.slabContainer (sizeClass size)) = s := by
    rw [current_refines hg.rep h6 h11, hc]
    rfl
  obtain ⟨hb, -, hlink⟩ := (hg.rep.pool.header s _ hs).chain
  have hlink : S.kernel.mem.load b 8 = 0 := hlink
  refine ⟨b, ?_, fun x hx1 hx2 => ?_⟩
  · rw [nextBlock_slab _ h0 h1, hcur, if_neg (slab_address hi.layout hs).1, hb]
  · have hbyte := S.kernel.mem.load_div b (n := 8) (k := x - b) (by omega)
    rw [hlink, Nat.zero_div, Nat.zero_mod, Nat.add_sub_cancel' hx1] at hbyte
    exact UInt8.toNat_inj.1 hbyte.symm

/-- In every reached state `kzalloc` returns a clear block and writes nowhere else, exactly when nothing
is asked for or the block to come is clear already. -/
theorem kzalloc_clears_iff (img : Image) (m : Mem) (ha : HasAlignedPage (initRegion img.imgEnd))
    (hpool : img.slabPoolG ≠ 0) :
    ∃ K, boot img m = .ok K ∧ ∀ rs os S, clearingMachine.Run (.start K) rs os S →
      ∀ size, Clears S size ↔ size = 0 ∨ S.kernel.NextIsClear size := by
  obtain ⟨K, h₀, e, hg₀, -⟩ := boot_good img m ha
  refine ⟨K, e, fun rs os S r size => ?_⟩
  obtain ⟨h, hg⟩ := (clearingMachine_sound img).run r ⟨h₀, hg₀⟩
  exact hg.clears_iff hpool size

/-- A caller has all blocks of a slab but one: `kzalloc` returns the last one clear. -/
theorem kzalloc_clears_iff_five_mb : ∃ K os S, boot imageFiveMb (fun _ => 0) = .ok K ∧
    clearingMachine.Run (.start K) (List.replicate 2046 (.op (.kmalloc 8))) os S ∧
    S.kernel.NextIsClear 8 ∧ Clears S 8 := by
  obtain ⟨K, h₀, e, hg₀, hi, hp, -⟩ := boot_good imageFiveMb (fun _ => 0) imageFiveMb_aligned
  have hsv : Heap.Serves 8 6 :=
    ⟨by norm_num, by norm_num, max_eq_left (Nat.clog_le_of_le_pow (by norm_num))⟩
  obtain ⟨os, S, h, s, r, hg, hf, -⟩ := filling_run imageFiveMb_aligned hsv hg₀ hi hp
  obtain ⟨K', e', hr⟩ := kzalloc_clears_iff imageFiveMb (fun _ => 0) imageFiveMb_aligned (by decide)
  obtain rfl : K' = K := Except.ok.inj (e'.symm.trans e)
  have r' := clearing_run r
  rw [List.map_replicate] at r'
  have hclear := hf.nextIsClear hsv le_rfl hg
  exact ⟨K', os, S, e, r', hclear, (hr _ _ _ r' 8).2 (.inr hclear)⟩

/-- The first block of all is not clear. -/
lemma boot_dirty (ha : HasAlignedPage (initRegion img.imgEnd)) (hg : Good img S h)
    (hi : Heap.Inv img.slabPoolG h ∅) (hp : h.pool = Pool.empty) (h0 : 0 < size) (h1 : size ≤ 2048) :
    ∃ p K', S.kernel.kzalloc size = .ok (p, K') ∧ isValidPtr p ∧
      ∃ x, p ≤ x ∧ x < p + size ∧ K'.mem x ≠ 0 := by
  obtain ⟨h6, h11⟩ := sizeClass_le_eleven h1
  obtain ⟨p, h', e, hvalid⟩ := hg.heap_kmalloc h0
  obtain ⟨K', ek, -, -, hc⟩ := hg.kmalloc_content h0 e
  have hcur : S.kernel.current (S.kernel.slabContainer (sizeClass size)) = 0 := by
    rw [current_refines hg.rep h6 h11, hp]
    rfl
  have hnone := nextBlock_slab S.kernel h0 h1
  rw [if_pos hcur] at hnone
  cases hc with
  | null hnull _ =>
    rw [Heap.kmalloc, if_neg (by omega), if_pos h1] at e
    rcases Heap.slabAlloc_spec hi h0 h1 with ⟨-, hex⟩ | ⟨q, h₁, e₁, ht⟩
    · exact absurd hex (boot_not_exhausted ha hg hi hp)
    · rw [e] at e₁
      cases e₁
      exact absurd hnull ht.ne_zero
  | kept _ hnext _ =>
    rw [hnone] at hnext
    cases hnext
  | linked hne _ hx => exact ⟨p, K', kzalloc_of_valid ek (hvalid hne), hvalid hne, hx⟩

/-- Right after the start, with memory all zero: `kzalloc(64)` returns a block that is not clear, and
`kzalloc` of more than the largest chunk writes through `NULL`. -/
theorem kzalloc_dirty :
    ∃ K, boot imageFiveMb (fun _ => 0) = .ok K ∧ clearingMachine.Run (.start K) [] [] (.start K) ∧
      (∃ p K', K.kzalloc 64 = .ok (p, K') ∧ isValidPtr p ∧
        ∃ x, p ≤ x ∧ x < p + 64 ∧ K'.mem x ≠ 0) ∧
      K.kzalloc (2 ^ 22 + 1) = .ok (0, K.withMem (K.mem.memset 0 0 (2 ^ 22 + 1))) ∧
      ¬ Clears (.start K) 64 ∧ ¬ Clears (.start K) (2 ^ 22 + 1) := by
  obtain ⟨K, h, e, hg, hi, hp, -⟩ := boot_good imageFiveMb (fun _ => 0) imageFiveMb_aligned
  have hpool : imageFiveMb.slabPoolG ≠ 0 := by decide
  have h64 : ∃ p K', K.kzalloc 64 = .ok (p, K') ∧ isValidPtr p ∧
      ∃ x, p ≤ x ∧ x < p + 64 ∧ K'.mem x ≠ 0 :=
    boot_dirty imageFiveMb_aligned hg hi hp (by norm_num) (by norm_num)
  refine ⟨K, e, .nil, h64, kzalloc_of_null (kmalloc_large K (by norm_num)), fun hc => ?_, fun hc => ?_⟩
  · obtain ⟨p, K', e', hv, x, h1, h2, hne⟩ := h64
    obtain ⟨q, K₁, e₁, hz⟩ := hc.zeroed
    have e₂ : K.kzalloc 64 = .ok (q, K₁) := e₁
    rw [e'] at e₂
    cases e₂
    exact hne (hz hv x h1 h2)
  · obtain ⟨p, hnext, -⟩ := hg.clear_of_clears hpool (by norm_num) hc
    rw [nextBlock_large _ (by norm_num)] at hnext
    cases hnext

end Kmalloc

end KingdoKernel
