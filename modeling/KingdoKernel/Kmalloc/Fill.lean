import KingdoKernel.Kmalloc.Run

/-!
# Runs that fill a slab

From the state after `mm_init` a caller asks for blocks of one order: the first call makes a slab, and the
following ones take its blocks (`Filling`, `filling_run`). `two_blocks` is the run of two calls on a
concrete image.
-/

namespace KingdoKernel.Kmalloc
open Slab Buddy Tiles Kernel

variable {img : Image} {S S' : Sys} {h h' : Heap} {K : Kernel} {k s n p size : ℕ}

/-- An image that ends 5 MB below the end of memory, with `slab_pool_g` one megabyte after its start. -/
def imageFiveMb : Image where
  imgEnd := physMemEnd - 0x500000
  slabPoolG := kbase + 0x100000
  below := by
    norm_num [initRegion, freePhysMemStart, availablePhysMemStart, availablePhysMemEnd, roundUp,
      roundDown, subWord, physToVirt, kbase, physMemEnd, pageSize, sizeofPage]

/-- The region of the image has an aligned page of the largest order. -/
lemma imageFiveMb_aligned : HasAlignedPage (initRegion imageFiveMb.imgEnd) := hasAlignedPage_five_mb

/-- There is memory for a slab at the start. -/
lemma boot_not_exhausted (ha : HasAlignedPage (initRegion img.imgEnd)) (hg : Good img S h)
    (hi : Heap.Inv img.slabPoolG h ∅) (hp : h.pool = Pool.empty) : ¬ h.buddy.Exhausted 5 := by
  obtain ⟨p, hd, hend⟩ := ha.block (initRegion_geometry ha) hg.bounds
  have hal : Block.Aligned h.buddy.base ⟨p, 5⟩ := Dvd.dvd.trans (by norm_num) hd
  refine hi.buddy.not_exhausted hal (by norm_num) (by omega) ?_
  rintro c (⟨-, σ, hσ⟩ | hc)
  · rw [hp] at hσ
    cases hσ
  · cases hc

/-- What a call of `kfree` does to the callers' view. -/
lemma exec_kfree {p : ℕ} {o : Option ℕ} (e : machine.exec S (.kfree p) = .ok (o, S')) :
    ∃ K', o = none ∧ S' = S.drop K' p .kmalloc := by
  obtain ⟨K', -, e⟩ := bind_eq_ok.1 e
  cases e
  exact ⟨K', rfl, rfl⟩

/-- Callers can give everything back. -/
lemma Good.free_all (hg : Good img S h) (hsrc : ∀ a ∈ S.live, a.source = .kmalloc) :
    ∃ os S' h', machine.Run S (S.live.map fun a => .kfree a.ptr) os S' ∧ Good img S' h' ∧
      S'.live = [] ∧ S'.refilled = S.refilled := by
  obtain ⟨K, live, refilled⟩ := S
  induction live generalizing K h with
  | nil => exact ⟨[], _, h, .nil, hg, rfl, rfl⟩
  | cons a l ih =>
    have hh : (Sys.mk K (a :: l) refilled).Holds a.ptr .kmalloc :=
      ⟨a, List.mem_cons_self, rfl, hsrc a List.mem_cons_self⟩
    obtain ⟨o, S₁, h₁, e, -, hg₁, -⟩ := step_kfree hg hh
    obtain ⟨K', rfl, rfl⟩ := exec_kfree e
    have hdrop : (Sys.mk K (a :: l) refilled).drop K' a.ptr .kmalloc = ⟨K', l, refilled⟩ := by
      rw [Sys.drop, List.eraseP_cons_of_pos]
      exact decide_eq_true ⟨rfl, hsrc a List.mem_cons_self⟩
    rw [hdrop] at hg₁ e
    obtain ⟨os, S', h', r, hg', hnil, href⟩ :=
      ih K' hg₁ fun c hc => hsrc c (List.mem_cons_of_mem _ hc)
    exact ⟨none :: os, S', h', .cons hh e r, hg', hnil, href⟩

/-- The current slab `s` of order `k` has `n` free blocks, there is no partial slab and there is memory
for another slab. -/
def Filling (h : Heap) (k s n : ℕ) : Prop :=
  h.pool.container k = ⟨some s, []⟩ ∧ (∃ l, h.pool.slab s = some ⟨k, l⟩ ∧ l.length = n) ∧
    ¬ h.buddy.Exhausted 5

/-- `kmalloc` of a size that the slabs of order `k` serve. -/
lemma kmalloc_eq_alloc (hs : Heap.Serves size k) : h.kmalloc size = h.alloc k := by
  obtain ⟨h0, h1, rfl⟩ := hs
  rw [Heap.kmalloc, if_neg (by omega), if_pos h1, Heap.slabAlloc, sizeToSlabOrder_eq h0 h1]

/-- A block less: the first one of the chain. -/
lemma Filling.alloc (hf : Filling h k s (n + 2)) :
    ∃ b l h', h.alloc k = .ok (b, h') ∧ Filling h' k s (n + 1) ∧ h.pool.slab s = some ⟨k, b :: l⟩ ∧
      h'.pool.slab s = some ⟨k, l⟩ := by
  obtain ⟨hc, ⟨l, hs, hlen⟩, hex⟩ := hf
  cases l with
  | nil => cases hlen
  | cons b l =>
    have hlen' : l.length = n + 1 := by simpa using hlen
    have hne : l ≠ [] := by
      rintro rfl
      cases hlen'
    have hs' : (h.pool.setFree k s l).slab s = some ⟨k, l⟩ := by
      rw [Pool.slab_setFree, if_pos rfl]
    refine ⟨b, l, ⟨h.buddy, h.pool.setFree k s l⟩, ?_, ⟨hc, ⟨l, hs', hlen'⟩, hex⟩, hs, hs'⟩
    rw [Heap.alloc, hc]
    simp only [Heap.take, hs]
    exact if_neg hne

/-- A call of `kmalloc` that the slabs serve, from what it does to the heap. -/
lemma Good.kmalloc_call (hsv : Heap.Serves size k) (hg : Good img S h) (e : h.alloc k = .ok (p, h')) :
    ∃ K', machine.exec S (.kmalloc size) = .ok (some p, S.take K' ⟨p, size, .kmalloc⟩) ∧
      Good img (S.take K' ⟨p, size, .kmalloc⟩) h' := by
  obtain ⟨o, S', h₁, ex, e', hg', -⟩ := step_kmalloc hg size
  obtain ⟨q, K', rfl, rfl⟩ := exec_kmalloc ex
  simp only [heapMachine, kmalloc_eq_alloc hsv, e, ok_bind, pure_eq_ok, Except.ok.injEq,
    Prod.mk.injEq, Option.some.injEq] at e'
  obtain ⟨rfl, rfl⟩ := e'
  exact ⟨K', ex, hg'⟩

/-- With memory for another slab `kmalloc` returns a block. -/
lemma Good.alloc_valid (hsv : Heap.Serves size k) (hg : Good img S h) (hex : ¬ h.buddy.Exhausted 5)
    (e : h.alloc k = .ok (p, h')) : (Alloc.mk p size .kmalloc).Valid := by
  obtain ⟨pages, hi, -⟩ := hg.held
  obtain ⟨h0, h1, rfl⟩ := hsv
  rcases Heap.slabAlloc_spec hi h0 h1 with ⟨-, h5⟩ | ⟨q, h₁, e', ht⟩
  · exact absurd h5 hex
  · rw [Heap.slabAlloc, sizeToSlabOrder_eq h0 h1] at e'
    dsimp only at e'
    rw [e] at e'
    cases e'
    refine valid_of_mem ht.inv.toCore ?_
    rw [ht.extents]
    exact Set.mem_insert _ _

/-- A slab with more than one free block is not the last one. -/
lemma Filling.not_refills (hf : Filling h k s (n + 2)) (hg : Good img S h) (h6 : 6 ≤ k) (h11 : k ≤ 11) :
    S.kernel.refills k = false := by
  obtain ⟨pages, hi, -⟩ := hg.held
  refine Bool.eq_false_of_not_eq_true fun ht => ?_
  obtain ⟨⟨t, b, hc, hs⟩, -⟩ := (refills_iff hg.rep hi h6 h11).1 ht
  obtain ⟨hc', ⟨l, hs', hlen⟩, -⟩ := hf
  rw [hc'] at hc
  cases hc
  rw [hs'] at hs
  cases hs
  cases hlen

/-- `n` more blocks, all but the last one. -/
lemma Filling.run (hsv : Heap.Serves size k) (hg : Good img S h) (hf : Filling h k s (n + 1))
    (hsrc : ∀ a ∈ S.live, a.source = .kmalloc) :
    ∃ os S' h', machine.Run S (List.replicate n (.kmalloc size)) os S' ∧ Good img S' h' ∧
      Filling h' k s 1 ∧ ∀ a ∈ S'.live, a.source = .kmalloc := by
  induction n generalizing S h with
  | zero => exact ⟨[], S, h, .nil, hg, hf, hsrc⟩
  | succ n ih =>
    obtain ⟨b, l, h₁, e₁, hf₁, -⟩ := hf.alloc
    obtain ⟨K', e, hg₁⟩ := hg.kmalloc_call hsv e₁
    obtain ⟨os, S', h', r, hrest⟩ := ih hg₁ hf₁ (List.forall_mem_cons.2 ⟨rfl, hsrc⟩)
    exact ⟨some b :: os, S', h', .cons trivial e r, hrest⟩

/-- The region has place for a second slab. -/
lemma not_exhausted_of_single {base : ℕ} (ha : HasAlignedPage (initRegion img.imgEnd))
    (hb : SameBounds (initRegion img.imgEnd) h.buddy) (hi : Heap.Core base h ∅)
    (hone : ∀ t σ, h.pool.slab t = some σ → t = s) : ¬ h.buddy.Exhausted 5 := by
  obtain ⟨p, hd, hend⟩ := ha.block (initRegion_geometry ha) hb
  have hal : Block.Aligned h.buddy.base ⟨p, 5⟩ := Dvd.dvd.trans (by norm_num) hd
  have hal' : Block.Aligned h.buddy.base ⟨p + 32, 5⟩ := by
    show 2 ^ 5 ∣ h.buddy.base + (p + 32)
    omega
  -- a slab chunk that meets an aligned block of its size is that block
  have heq : ∀ {q}, Block.Aligned h.buddy.base ⟨q, 5⟩ → ∀ c ∈ h.slabChunks ∪ ∅,
      ∀ n ∈ (⟨q, 5⟩ : Block).pages, n ∈ c.pages → h.buddy.pageToVirt q = s := by
    rintro q hq c (hc | hc) n hn hn'
    · obtain ⟨ho, σ, hσ⟩ := id hc
      have e := Block.Aligned.eq_of_order_eq hq (hi.buddy.tiling.aligned c (.inr (.inl hc))) ho.symm hn hn'
      rw [← hone _ σ hσ, ← e]
    · cases hc
  by_cases hp : h.buddy.pageToVirt p = s
  · refine hi.buddy.not_exhausted hal' (by norm_num) (by omega) fun c hc n hn hn' => ?_
    have e := Heap.pageToVirt_injective _ (hp.trans (heq hal' c hc n hn hn').symm)
    omega
  · exact hi.buddy.not_exhausted hal (by norm_num) (by omega) fun c hc n hn hn' =>
      hp (heq hal c hc n hn hn')

/-- The first block, from a new slab. -/
lemma first_alloc (ha : HasAlignedPage (initRegion img.imgEnd))
    (hg : Good img S h) (hi : Heap.Inv img.slabPoolG h ∅) (hp : h.pool = Pool.empty) (h6 : 6 ≤ k)
    (h11 : k ≤ 11) :
    ∃ b h' s, h.alloc k = .ok (b, h') ∧ Filling h' k s (2 ^ (17 - k) - 2) := by
  have hge := two_pow_sub_ge h11
  rcases Heap.grow_spec hi.toCore h6 h11 with ⟨-, hex⟩ | ⟨s, bud, hc, -, hcore, hb, -⟩
  · exact absurd hex (boot_not_exhausted ha hg hi hp)
  · have hslab : (h.pool.add k s).slab s = some ⟨k, blocks s k⟩ := by
      rw [Pool.slab_add, if_pos rfl]
    have hone : ∀ t σ, (h.pool.add k s).slab t = some σ → t = s := by
      intro t σ ht
      by_contra hne
      rw [Pool.slab_add, if_neg hne, hp] at ht
      cases ht
    have hex := not_exhausted_of_single ha (h := ⟨bud, h.pool.add k s⟩) (hg.bounds.trans hb) hcore hone
    have hlen := length_blocks s k
    cases hl : blocks s k with
    | nil =>
      rw [hl, List.length_nil] at hlen
      omega
    | cons b l =>
      rw [hl] at hslab hlen
      rw [List.length_cons] at hlen
      have hne : l ≠ [] := by
        rintro rfl
        rw [List.length_nil] at hlen
        omega
      refine ⟨b, ⟨bud, (h.pool.add k s).setFree k s l⟩, s, ?_, ?_, ⟨l, ?_, by omega⟩, hex⟩
      · have hcur : (h.pool.container k).current = none := by
          rw [hp]
          rfl
        rw [Heap.alloc, hcur]
        simp only [hc.grow, ok_bind, Heap.take, hslab]
        exact if_neg hne
      · show (h.pool.add k s).container k = _
        rw [Pool.container_add, if_pos rfl, hp]
        rfl
      · rw [Pool.slab_setFree, if_pos rfl]


/-- All blocks of a new slab but one. -/
lemma filling_run (ha : HasAlignedPage (initRegion img.imgEnd)) (hsv : Heap.Serves size k)
    (hg : Good img (.start K) h) (hi : Heap.Inv img.slabPoolG h ∅) (hp : h.pool = Pool.empty) :
    ∃ os S' h' s, machine.Run (.start K) (List.replicate (2 ^ (17 - k) - 2) (.kmalloc size)) os S' ∧
      Good img S' h' ∧ Filling h' k s 1 ∧ ∀ a ∈ S'.live, a.source = .kmalloc := by
  obtain ⟨h6, h11⟩ := hsv.2.2 ▸ sizeClass_le_eleven hsv.2.1
  have hge := two_pow_sub_ge h11
  obtain ⟨b, h₁, s, e₁, hf₁⟩ := first_alloc ha hg hi hp h6 h11
  obtain ⟨K₁, e, hg₁⟩ := hg.kmalloc_call hsv e₁
  obtain ⟨m, hm⟩ : ∃ m, 2 ^ (17 - k) = m + 3 := ⟨2 ^ (17 - k) - 3, by omega⟩
  rw [hm, show m + 3 - 2 = m + 1 by omega] at hf₁
  obtain ⟨os, S₂, h₂, r, hrest⟩ := hf₁.run hsv hg₁ (List.forall_mem_cons.2 ⟨rfl, by rintro a ⟨⟩⟩)
  refine ⟨some b :: os, S₂, h₂, s, ?_, hrest⟩
  rw [hm, show m + 3 - 2 = m + 1 by omega, List.replicate_succ]
  exact .cons trivial e r

/-! ## Two blocks -/

/-- 2048 bytes are a block of order 11. -/
lemma serves_two_kb : Heap.Serves 2048 11 := by
  refine ⟨by norm_num, le_rfl, ?_⟩
  rw [sizeClass, show 2048 = 2 ^ 11 from rfl, Nat.clog_pow 2 _ (by norm_num)]
  rfl

/-- From `K` two calls of `kmalloc(2048)` return `p` and `q`, the states after them being `S₁` and `S`. The
slab `s` of the two has the free blocks `l`. -/
structure TwoBlocks (K : Kernel) (p q : ℕ) (S₁ S : Sys) (h : Heap) (s : ℕ) (l : List ℕ) : Prop where
  boot : boot imageFiveMb (fun _ => 0) = .ok K
  first : machine.exec (.start K) (.kmalloc 2048) = .ok (some p, S₁)
  second : machine.exec S₁ (.kmalloc 2048) = .ok (some q, S)
  live₁ : S₁.live = [⟨p, 2048, .kmalloc⟩]
  live : S.live = [⟨q, 2048, .kmalloc⟩, ⟨p, 2048, .kmalloc⟩]
  valid₁ : (Alloc.mk p 2048 .kmalloc).Valid
  valid : (Alloc.mk q 2048 .kmalloc).Valid
  good₁ : ∃ h, Good imageFiveMb S₁ h
  good : Good imageFiveMb S h
  current : (h.pool.container 11).current = some s
  slab : h.pool.slab s = some ⟨11, l⟩
  length : l.length = 61
  block : q ∈ blocks s 11 ∧ q ∉ l
  refilled : ∀ k, S.refilled k = false

/-- On the image with 5 MB there is such a run. -/
lemma two_blocks : ∃ K p q S₁ S h s l, TwoBlocks K p q S₁ S h s l := by
  obtain ⟨K, h, e, hg, hi, hp, -⟩ := boot_good imageFiveMb (fun _ => 0) imageFiveMb_aligned
  have hsv := serves_two_kb
  have h6 : 6 ≤ 11 := by norm_num
  obtain ⟨p, h₁, s, e₁, hf₁⟩ := first_alloc imageFiveMb_aligned hg hi hp h6 le_rfl
  obtain ⟨K₁, ex₁, hg₁⟩ := hg.kmalloc_call hsv e₁
  obtain ⟨q, l, h₂, e₂, ⟨hc₂, ⟨l', hs₂, hlen⟩, -⟩, hs₁, hs⟩ := Filling.alloc (n := 60) hf₁
  obtain ⟨K₂, ex₂, hg₂⟩ := hg₁.kmalloc_call hsv e₂
  rw [hs] at hs₂
  cases hs₂
  obtain ⟨pages, hi₁, -⟩ := hg₁.held
  have hw := hi₁.layout.slabs s _ hs₁
  refine ⟨K, p, q, _, _, h₂, s, l, e, ex₁, ex₂, rfl, rfl,
    hg.alloc_valid hsv (boot_not_exhausted imageFiveMb_aligned hg hi hp) e₁,
    hg₁.alloc_valid hsv hf₁.2.2 e₂, ⟨h₁, hg₁⟩, hg₂, by rw [hc₂], hs, hlen,
    ⟨hw.blocks q List.mem_cons_self, (List.nodup_cons.1 hw.nodup).1⟩, fun k => ?_⟩
  -- neither call finds the last block of a slab
  have hk : ∀ k, Heap.Serves 2048 k → k = 11 := fun k h => h.2.2.symm.trans hsv.2.2
  have h0 : K.refills 11 = false := by
    refine Bool.eq_false_of_not_eq_true fun ht => ?_
    obtain ⟨pages, hi, -⟩ := hg.held
    obtain ⟨⟨t, b, hc, -⟩, -⟩ := (refills_iff hg.rep hi h6 le_rfl).1 ht
    rw [hp] at hc
    cases hc
  show (if Heap.Serves 2048 k then _ else if Heap.Serves 2048 k then K.refills k else false) = false
  by_cases h : Heap.Serves 2048 k
  · rw [if_pos h, hk k h]
    exact Filling.not_refills (n := 60) hf₁ hg₁ h6 le_rfl
  · rw [if_neg h, if_neg h]

/-- The two calls as a run. -/
lemma TwoBlocks.run {q s : ℕ} {S₁ : Sys} {l : List ℕ} (t : TwoBlocks K p q S₁ S h s l) :
    machine.Run (.start K) [.kmalloc 2048, .kmalloc 2048] [some p, some q] S :=
  .cons trivial t.first (.cons trivial t.second .nil)

end KingdoKernel.Kmalloc
