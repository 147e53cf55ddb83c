import KingdoKernel.Kmalloc.Leak
import KingdoKernel.Kmalloc.Slabs

/-!
# When `slab_alloc` finds no memory

`__slab_alloc` goes to the buddy allocator as soon as its container has no current slab, while
`set_new_current_slab` looks at the partial list first. The two agree as long as a container without a
current slab has no partial slab either. They part once the buddy allocator was empty when a current
slab had to be replaced, and a block of a full slab was freed later: the container is then `Stranded`.

* `slab_alloc_null_iff`: `slab_alloc` reports the lack of memory correctly in exactly the states in
  which the container asked is not stranded.
* `stranded_slab_refused`: a run to a stranded container.
-/

namespace KingdoKernel.Kmalloc
open Slab Buddy Tiles Kernel ListHead

variable {img : Image} {S S' : Sys} {h h' : Heap} {pages : Set Block} {size k s b n : ℕ}

/-- There is no free block of order `k` and no memory for another slab. -/
structure NoRoom (S : Sys) (k : ℕ) : Prop where
  current : S.kernel.current (S.kernel.slabContainer k) ≠ 0 →
    S.kernel.mem.load (S.kernel.current (S.kernel.slabContainer k) + 32) 4 = 0
  partials : ∃ ns, (∀ n, forEachInList memLinks S.kernel.mem (S.kernel.slabContainer k + 8)
      (ns.length + 1 + n) (memLinks.next S.kernel.mem (S.kernel.slabContainer k + 8)) = some ns) ∧
    ∀ node ∈ ns, S.kernel.mem.load (node - 16 + 32) 4 = 0
  buddy : S.kernel.buddy.Exhausted slabPageOrder

/-- `slab_alloc(size)`, served by the container of order `k`, returns `NULL` only without room, and then
changes nothing. -/
def NullOnlyWithoutRoom (S : Sys) (size k : ℕ) : Prop :=
  ∀ K', S.kernel.slabAlloc size = .ok (0, K') → NoRoom S k ∧ K' = S.kernel

/-- The container of order `k` has partial slabs but no current one, and there is no memory for a new
slab. -/
def Stranded (S : Sys) (k : ℕ) : Prop :=
  S.kernel.current (S.kernel.slabContainer k) = 0 ∧
    listEmpty memLinks S.kernel.mem (S.kernel.slabContainer k + 8) = false ∧
    S.kernel.buddy.Exhausted slabPageOrder

/-- In memory there is no current slab when the heap has none. -/
lemma Good.current_eq_zero (hg : Good img S h) (hi : Heap.Inv S.kernel.slabPoolG h pages)
    (h6 : 6 ≤ k) (h11 : k ≤ 11) :
    S.kernel.current (S.kernel.slabContainer k) = 0 ↔ (h.pool.container k).current = none := by
  rw [current_refines hg.rep h6 h11]
  cases hc : (h.pool.container k).current with
  | none => exact iff_of_true rfl rfl
  | some s =>
    obtain ⟨b, l, hs⟩ := hi.current_free hc
    exact iff_of_false (slab_address hi.layout hs).1 nofun

/-- `slab_alloc` returns `NULL` when the container has no current slab and the buddy allocator no
chunk. -/
lemma Good.slabAlloc_null_iff (hg : Good img S h) (h0 : 0 < size) (h1 : size ≤ 2048) {K' : Kernel} :
    S.kernel.slabAlloc size = .ok (0, K') ↔
      (S.kernel.current (S.kernel.slabContainer (sizeClass size)) = 0 ∧
        S.kernel.buddy.Exhausted slabPageOrder) ∧ K' = S.kernel := by
  obtain ⟨pages, hi, -⟩ := hg.held
  obtain ⟨h6, h11⟩ := sizeClass_le_eleven h1
  have hcur := hg.current_eq_zero hi h6 h11
  have hbuddy := hg.rep.buddy
  rw [hcur, hbuddy]
  -- a call that is served returns a block
  have hserved : ∀ {b h'}, h.alloc (sizeClass size) = .ok (b, h') → b ≠ 0 →
      S.kernel.slabAlloc size ≠ .ok (0, K') := by
    intro b h' e hb e'
    have es : h.slabAlloc size = .ok (b, h') := by
      rw [Heap.slabAlloc, sizeToSlabOrder_eq h0 h1]
      exact e
    obtain ⟨K₁, e₁, -⟩ := slabAlloc_follows hg.rep hi es
    rw [e'] at e₁
    cases e₁
    exact hb rfl
  cases hc : (h.pool.container (sizeClass size)).current with
  | some s =>
    obtain ⟨b, h', e, hgave⟩ := Heap.take_spec hi h6 h11 hc
    have ea : h.alloc (sizeClass size) = .ok (b, h') := by
      rw [Heap.alloc, hc]
      exact e
    exact iff_of_false (hserved ea hgave.ne_zero) (by rintro ⟨⟨⟨⟩, -⟩, -⟩)
  | none =>
    rcases Heap.alloc_spec hi h6 h11 with ⟨-, hex⟩ | ⟨b, h', e, hgave⟩
    · have hget : S.kernel.buddy.buddyGetPages slabPageOrder = .ok (none, S.kernel.buddy) := by
        rw [hbuddy]
        rcases buddyGetPages_spec (show slabPageOrder < buddyMaxOrder by decide) hi.buddy with
          ⟨e, -⟩ | ⟨c, s', -, -, -, -, hne⟩
        · exact e
        · exact absurd hex hne
      have hkernel : S.kernel.slabAlloc size = .ok (0, S.kernel) := by
        have hfail : S.kernel.allocSlabFromBuddy (sizeClass size) = .ok (-enomem, S.kernel) := by
          rw [allocSlabFromBuddy, hget]
          rfl
        have hrange : ¬ (sizeClass size < minSlabBlockOrder ∨ maxSlabBlockOrder < sizeClass size) := by
          simp only [minSlabBlockOrder, maxSlabBlockOrder]
          omega
        rw [Kernel.slabAlloc, sizeToSlabOrder_eq h0 h1]
        simp only []
        rw [__slabAlloc, if_neg hrange, if_pos (hcur.2 hc), hfail]
        rfl
      rw [hkernel]
      simp only [Except.ok.injEq, Prod.mk.injEq, true_and]
      exact ⟨fun e => ⟨hex, e.symm⟩, fun e => e.2.symm⟩
    · refine iff_of_false (hserved e hgave.ne_zero) ?_
      rintro ⟨⟨-, hex⟩, -⟩
      rw [Heap.alloc, hc] at e
      rcases Heap.grow_spec hi.toCore h6 h11 with ⟨eg, -⟩ | ⟨s, b', -, -, -, -, -, hne⟩
      · simp only [Heap.grow_none eg, ok_bind, pure_eq_ok, Except.ok.injEq, Prod.mk.injEq] at e
        exact hgave.ne_zero e.1.symm
      · exact hne hex

/-- Partial slabs have free blocks. -/
lemma Good.noRoom_iff (hg : Good img S h) (h6 : 6 ≤ k) (h11 : k ≤ 11)
    (hcur : S.kernel.current (S.kernel.slabContainer k) = 0)
    (hex : S.kernel.buddy.Exhausted slabPageOrder) :
    NoRoom S k ↔ listEmpty memLinks S.kernel.mem (S.kernel.slabContainer k + 8) = true := by
  obtain ⟨pages, hi, -⟩ := hg.held
  have hst := hg.containerState hi h6 h11
  have hempty : listEmpty memLinks S.kernel.mem (S.kernel.slabContainer k + 8) = true ↔
      (h.pool.container k).partials.map (· + 16) = [] :=
    listEmpty_ring _ (hg.rep.pool.ring k h6 h11)
  rw [hempty]
  constructor
  · rintro ⟨-, ⟨ns, hns, hfull⟩, -⟩
    -- both walks visit the same nodes
    have e : ns = (h.pool.container k).partials.map (· + 16) := by
      have h1 := hns ((h.pool.container k).partials.map (· + 16)).length
      have h2 := hst.visits ns.length
      rw [show ns.length + 1 + ((h.pool.container k).partials.map (· + 16)).length =
        ((h.pool.container k).partials.map (· + 16)).length + 1 + ns.length by omega] at h1
      exact Option.some.inj (h1.symm.trans h2)
    rw [← e, List.eq_nil_iff_forall_not_mem]
    intro node hn
    obtain ⟨s, rfl, -, -, hfree, -⟩ := hst.partials node (e ▸ hn)
    have := hfull _ hn
    rw [Nat.add_sub_cancel] at this
    omega
  · intro hnil
    refine ⟨fun hne => absurd hcur hne, ⟨[], ?_, by rintro n ⟨⟩⟩, hex⟩
    rw [hnil] at hst
    exact hst.visits

/-- What `slab_alloc` reports, in one state. -/
lemma Good.nullOnlyWithoutRoom_iff (hg : Good img S h) (h0 : 0 < size) (h1 : size ≤ 2048) :
    NullOnlyWithoutRoom S size (sizeClass size) ↔ ¬ Stranded S (sizeClass size) := by
  obtain ⟨h6, h11⟩ := sizeClass_le_eleven h1
  constructor
  · rintro hnull ⟨hcur, hpart, hex⟩
    obtain ⟨hroom, -⟩ := hnull S.kernel ((hg.slabAlloc_null_iff h0 h1).2 ⟨⟨hcur, hex⟩, rfl⟩)
    rw [hg.noRoom_iff h6 h11 hcur hex, hpart] at hroom
    cases hroom
  · intro hns K' e'
    obtain ⟨⟨hcur, hex⟩, rfl⟩ := (hg.slabAlloc_null_iff h0 h1).1 e'
    refine ⟨(hg.noRoom_iff h6 h11 hcur hex).2 ?_, rfl⟩
    by_contra hne
    exact hns ⟨hcur, Bool.eq_false_of_not_eq_true hne, hex⟩

/-- In every reached state `slab_alloc` reports the lack of memory correctly exactly when the container
it asks is not stranded. -/
theorem slab_alloc_null_iff (img : Image) (m : Mem) (ha : HasAlignedPage (initRegion img.imgEnd)) :
    ∃ K, boot img m = .ok K ∧ ∀ ops os S, machine.Run (.start K) ops os S →
      ∀ size, 1 ≤ size → size ≤ 2048 → ∃ k, sizeToSlabOrder size = some k ∧
        (NullOnlyWithoutRoom S size k ↔ ¬ Stranded S k) := by
  obtain ⟨K, h₀, e, hg₀, -⟩ := boot_good img m ha
  refine ⟨K, e, fun ops os S r size h0 h1 => ⟨sizeClass size, sizeToSlabOrder_eq h0 h1, ?_⟩⟩
  obtain ⟨h, -, hg⟩ := hg₀.run r
  exact hg.nullOnlyWithoutRoom_iff h0 h1

/-- With two blocks taken `slab_alloc` still has blocks for the next caller. -/
theorem slab_alloc_null_iff_five_mb : ∃ K p q S, boot imageFiveMb (fun _ => 0) = .ok K ∧
    machine.Run (.start K) [.kmalloc 2048, .kmalloc 2048] [some p, some q] S ∧
    ¬ Stranded S 11 ∧ NullOnlyWithoutRoom S 2048 11 := by
  obtain ⟨K, p, q, S₁, S, h, s, l, t⟩ := two_blocks
  obtain ⟨K', e, hr⟩ := slab_alloc_null_iff imageFiveMb (fun _ => 0) imageFiveMb_aligned
  obtain rfl : K' = K := Except.ok.inj (e.symm.trans t.boot)
  obtain ⟨k, hk, hiff⟩ := hr _ _ _ t.run 2048 (by norm_num) le_rfl
  rw [sizeToSlabOrder_eq (by norm_num) le_rfl, serves_two_kb.2.2] at hk
  cases hk
  have hns : ¬ Stranded S 11 := by
    rintro ⟨hcur, -⟩
    obtain ⟨pages, hi, -⟩ := t.good.held
    rw [t.good.current_eq_zero hi (by norm_num) le_rfl, t.current] at hcur
    cases hcur
  exact ⟨K', p, q, S, e, t.run, hns, hiff.2 hns⟩

/-! ## A run to a stranded container -/

/-- Chunks for slabs can be asked for until there are none. -/
lemma Good.exhaust (hg : Good img S h) :
    ∃ n os S' h', machine.Run S (List.replicate n (.getPages 5)) os S' ∧ Good img S' h' ∧
      h'.pool = h.pool ∧ h'.buddy.Exhausted 5 := by
  induction hm : h.buddy.listedPages.ncard using Nat.strong_induction_on generalizing S h with
  | _ m ih =>
    obtain ⟨pages, hi, -⟩ := hg.held
    obtain ⟨o, S₁, h₁, e, e', hg₁, -⟩ := step_getPages hg (show 5 ≤ 10 by norm_num)
    rcases buddyGetPages_spec (show 5 < buddyMaxOrder by decide) hi.buddy with
      ⟨-, hex⟩ | ⟨c, b₁, eb, hf, hH, hinv, -⟩
    · exact ⟨0, [], S, h, .nil, hg, rfl, hex⟩
    · -- the pages of the chunk are not listed any more
      have hh₁ : h₁ = ⟨b₁, h.pool⟩ := by
        simp only [heapMachine, Heap.getPages, eb, ok_bind, pure_eq_ok, Except.ok.injEq,
          Prod.mk.injEq] at e'
        exact e'.2.symm
      have hlt : h₁.buddy.listedPages.ncard < m := by
        rw [hh₁, ← hm]
        have hfin : h.buddy.listedPages.Finite :=
          (Set.finite_Iio h.buddy.pageNum).subset fun x hx => (hi.buddy.mem_listedPages.1 hx).1
        refine Set.ncard_lt_ncard ⟨fun x hx => ?_, fun hsub => ?_⟩ hfin
        · rw [hinv.mem_listedPages, hf.pageNum] at hx
          exact hi.buddy.mem_listedPages.2 ⟨hx.1, fun d hd => hx.2 d (Set.mem_insert_of_mem _ hd)⟩
        · have hcm : (⟨c, 5⟩ : Block) ∈ b₁.freeBlocks ∪ insert ⟨c, 5⟩ (h.slabChunks ∪ pages) :=
            .inr (Set.mem_insert _ _)
          have hc : c ∈ h.buddy.listedPages := by
            refine hi.buddy.mem_listedPages.2 ⟨hf.pageNum ▸ hinv.start_lt hcm, fun d hd hcd => hH ?_⟩
            have e := hinv.tiling.disjoint _ hcm d (.inr (Set.mem_insert_of_mem _ hd)) c
              (Block.start_mem ⟨c, 5⟩) hcd
            rw [e]
            exact hd
          exact (hinv.mem_listedPages.1 (hsub hc)).2 _ (Set.mem_insert _ _) (Block.start_mem ⟨c, 5⟩)
      obtain ⟨n, os, S', h', r, hg', hp, hex⟩ := ih _ hlt hg₁ rfl
      refine ⟨n + 1, o :: os, S', h', ?_, hg', hp.trans (by rw [hh₁]), hex⟩
      rw [List.replicate_succ]
      exact .cons (show 5 ≤ 10 by norm_num) e r

/-- The last block of a full slab leaves no current slab when there is no memory for another one. -/
lemma alloc_last (hi : Heap.Inv img.slabPoolG h pages) (hc : h.pool.container k = ⟨some s, []⟩)
    (hs : h.pool.slab s = some ⟨k, [b]⟩) (hex : h.buddy.Exhausted 5) :
    h.alloc k = .ok (b, ⟨h.buddy, (h.pool.setFree k s []).advance k⟩) := by
  have hget : h.buddy.buddyGetPages slabPageOrder = .ok (none, h.buddy) := by
    rcases buddyGetPages_spec (show slabPageOrder < buddyMaxOrder by decide) hi.buddy with
      ⟨e, -⟩ | ⟨c, s', -, -, -, -, hne⟩
    · exact e
    · exact absurd hex hne
  have hrefill : Heap.refill ⟨h.buddy, h.pool.setFree k s []⟩ k =
      .ok ⟨h.buddy, (h.pool.setFree k s []).advance k⟩ := by
    have hp : ((h.pool.setFree k s []).container k).partials = [] := by
      show (h.pool.container k).partials = []
      rw [hc]
    rw [Heap.refill, hp]
    simp only [Heap.grow_none (h := ⟨h.buddy, (h.pool.setFree k s []).advance k⟩) hget, ok_bind,
      pure_eq_ok]
  rw [Heap.alloc, hc]
  simp only [Heap.take, hs]
  rw [if_pos trivial, hrefill]
  rfl

/-- Giving that block back parks its slab. -/
lemma kfree_full (hi : Heap.Inv img.slabPoolG h pages) (hs : h.pool.slab s = some ⟨k, []⟩)
    (hb : b ∈ blocks s k) (hz : b ≠ zeroSizePtr) :
    h.kfree b = .ok ⟨h.buddy, (h.pool.setFree k s [b]).park k s⟩ := by
  have hw := hi.layout.slabs s _ hs
  have hbd := hw.bounds hb
  have hab := hw.above
  have hpos : 0 < 2 ^ k := by positivity
  simp only [] at hbd
  obtain ⟨page, hv, hslab⟩ := hi.toCore.slab_of_mem hs (x := b) (by omega) (by omega)
  have hfree : h.slabFree b = .ok ⟨h.buddy, (h.pool.setFree k s [b]).park k s⟩ := by
    rw [Heap.slabFree, if_neg (by omega), hv]
    simp only [hslab, Heap.free, hs]
    rfl
  rw [Heap.kfree, if_neg hz, hv]
  simp only [hslab]
  rw [if_pos (show s ≠ 0 by omega), hfree]

/-- With one block left in the current slab: the buddy allocator is emptied, the block is taken and
given back. -/
lemma Good.strand (hsv : Heap.Serves size k) (hg : Good img S h)
    (hc : h.pool.container k = ⟨some s, []⟩) (hs : h.pool.slab s = some ⟨k, [b]⟩) :
    ∃ n os S' h', machine.Run S (List.replicate n (.getPages 5) ++ [.kmalloc size, .kfree b]) os S' ∧
      Good img S' h' ∧ h'.pool.container k = ⟨none, [s]⟩ ∧ h'.buddy.Exhausted 5 := by
  obtain ⟨n, os₁, S₁, h₁, r₁, hg₁, hp₁, hex₁⟩ := hg.exhaust
  rw [← hp₁] at hc hs
  obtain ⟨pages₁, hi₁, -⟩ := hg₁.held
  rw [hg₁.slabPoolG] at hi₁
  -- taking the block
  have e₂ := alloc_last hi₁ hc hs hex₁
  obtain ⟨o, S₂, h₂, ex₂, e₂', hg₂, -⟩ := step_kmalloc hg₁ size
  simp only [heapMachine, kmalloc_eq_alloc hsv, e₂, ok_bind, pure_eq_ok, Except.ok.injEq,
    Prod.mk.injEq] at e₂'
  obtain ⟨rfl, rfl⟩ := e₂'
  obtain ⟨q, K₂, eq, rfl⟩ := exec_kmalloc ex₂
  cases eq
  -- giving it back
  have hw := hi₁.layout.slabs s _ hs
  have hb : b ∈ blocks s k := hw.blocks b List.mem_cons_self
  have hz : b ≠ zeroSizePtr := by
    have hbd := hw.bounds hb
    have hbl := hw.below
    have hpow : 2 ^ 6 ≤ 2 ^ k := Nat.pow_le_pow_right (by norm_num) hw.order_ge
    simp only [zeroSizePtr] at hbd ⊢
    omega
  obtain ⟨pages₂, hi₂, -⟩ := hg₂.held
  rw [hg₂.slabPoolG] at hi₂
  have hs₂ : ((h₁.pool.setFree k s []).advance k).slab s = some ⟨k, []⟩ := by
    show (h₁.pool.setFree k s []).slab s = _
    rw [Pool.slab_setFree, if_pos rfl]
  have e₃ := kfree_full hi₂ hs₂ hb hz
  have hh : (S₁.take K₂ ⟨b, size, .kmalloc⟩).Holds b .kmalloc := ⟨_, List.mem_cons_self, rfl, rfl⟩
  obtain ⟨o, S₃, h₃, ex₃, e₃', hg₃, -⟩ := step_kfree hg₂ hh
  simp only [heapMachine, e₃, ok_bind, pure_eq_ok, Except.ok.injEq, Prod.mk.injEq] at e₃'
  obtain ⟨rfl, rfl⟩ := e₃'
  have r₂ : machine.Run S₁ [.kmalloc size, .kfree b] [some b, none] S₃ :=
    .cons (show machine.enabled S₁ (.kmalloc size) from trivial) ex₂
      (.cons (show machine.enabled _ (.kfree b) from hh) ex₃ .nil)
  refine ⟨n, _, S₃, _, r₁.append r₂, hg₃, ?_, hex₁⟩
  show (((h₁.pool.setFree k s []).advance k).setFree k s [b] |>.park k s).container k = _
  rw [Pool.container_park, if_pos rfl]
  show Container.mk (((h₁.pool.setFree k s []).advance k).container k).current
    ((((h₁.pool.setFree k s []).advance k).container k).partials ++ [s]) = _
  rw [Pool.container_advance, if_pos rfl]
  show Container.mk (h₁.pool.container k).partials.head?
    ((h₁.pool.container k).partials.tail ++ [s]) = _
  rw [hc]
  rfl

/-- A slab is filled up to its last block, the buddy allocator is emptied, the last block is taken and
given back: `slab_alloc` refuses the block although its slab is in the partial list. -/
theorem stranded_slab_refused :
    ∃ K n q os S, boot imageFiveMb (fun _ => 0) = .ok K ∧
      machine.Run (.start K) (List.replicate 62 (.kmalloc 2048) ++
        (List.replicate n (.getPages 5) ++ [.kmalloc 2048, .kfree q])) os S ∧
      ¬ NullOnlyWithoutRoom S 2048 11 := by
  obtain ⟨K, h, e, hg, hi, hp, -⟩ := boot_good imageFiveMb (fun _ => 0) imageFiveMb_aligned
  have hsv := serves_two_kb
  have hcl := hsv.2.2
  obtain ⟨os₂, S₂, h₂, s, r₂, hg₂, hf₂, -⟩ := filling_run imageFiveMb_aligned hsv hg hi hp
  obtain ⟨hc₂, ⟨l, hs₂, hlen⟩, -⟩ := hf₂
  obtain ⟨b, rfl⟩ := List.length_eq_one_iff.1 hlen
  obtain ⟨n, os₃, S₃, h₃, r₃, hg₃, hc₃, hex₃⟩ := hg₂.strand hsv hc₂ hs₂
  refine ⟨K, n, b, _, S₃, e, r₂.append r₃, ?_⟩
  rw [← hcl, hg₃.nullOnlyWithoutRoom_iff (by norm_num) le_rfl, hcl, not_not]
  obtain ⟨pages₃, hi₃, -⟩ := hg₃.held
  refine ⟨(hg₃.current_eq_zero hi₃ (by norm_num) le_rfl).2 (by rw [hc₃]),
    Bool.eq_false_of_not_eq_true fun hempty => ?_, ?_⟩
  · rw [slabContainer_eq, listEmpty_ring _ (hg₃.rep.pool.ring 11 (by norm_num) le_rfl), hc₃] at hempty
    cases hempty
  · rw [hg₃.rep.buddy]
    exact hex₃

end KingdoKernel.Kmalloc
