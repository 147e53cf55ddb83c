import KingdoKernel.Kmalloc.Heap

/-!
# The calls of the allocators refine the abstract heap

The kernel after a call represents the heap after the call, and no byte of an extent that callers hold
before and after it has changed (`Kernel.Follows`). `boot_spec` is the initial state.
-/

namespace KingdoKernel
open Slab Buddy Tiles ListHead

/-! ## The initial state -/

/-- No slabs. -/
def Slab.Pool.empty : Pool := ⟨fun _ => ⟨none, []⟩, fun _ => none⟩

namespace Kernel

variable {K K' : Kernel} {h h' : Heap} {pages pages' : Set Block} {k s b : ℕ}

/-- The container of order `k` is empty. -/
def Ready (m : Mem) (base k : ℕ) : Prop :=
  m.load (containerAt base k) 8 = 0 ∧ memLinks.Ring (nodes base) m (containerAt base k + 8) []

/-- One iteration of `init_slab` empties one container. -/
lemma initContainer_spec (hg : K.slabPoolG + 192 ≤ 2 ^ 64) (h6 : 6 ≤ k) (h11 : k ≤ 11) :
    ∃ m, K.initContainer k = K.withMem m ∧ Ready m K.slabPoolG k ∧
      ∀ j, 6 ≤ j → j ≤ 11 → j ≠ k → Ready K.mem K.slabPoolG j → Ready m K.slabPoolG j := by
  have hk := containerAt_bounds K.slabPoolG h6 h11
  have hnode : ∀ j, 6 ≤ j → j ≤ 11 → containerAt K.slabPoolG j + 8 ∈ nodes K.slabPoolG := by
    intro j hj6 hj11
    have hj := containerAt_bounds K.slabPoolG hj6 hj11
    exact ⟨by omega, .inl ⟨j, hj6, hj11, rfl⟩⟩
  obtain ⟨m1, hm1⟩ : ∃ x : Mem, x = K.mem.store (containerAt K.slabPoolG k) 8 0 := ⟨_, rfl⟩
  obtain ⟨m2, hm2⟩ : ∃ x : Mem, x = initListHead memLinks m1 (containerAt K.slabPoolG k + 8) :=
    ⟨_, rfl⟩
  have e : K.initContainer k = K.withMem m2 := by
    rw [hm2, hm1]
    rfl
  have hout : ∀ x, (x < containerAt K.slabPoolG k ∨ containerAt K.slabPoolG k + 24 ≤ x) →
      m2 x = K.mem x := by
    intro x hx
    rw [hm2, hm1, initListHead, LinkHeap.initRing]
    simp only [memLinks]
    rw [Mem.store_of_not_mem (by omega), Mem.store_of_not_mem (by omega),
      Mem.store_of_not_mem (by omega)]
  have hcur : m2.load (containerAt K.slabPoolG k) 8 = 0 := by
    rw [hm2, initListHead, LinkHeap.initRing]
    simp only [memLinks]
    rw [Mem.load_store_of_disjoint (by omega), Mem.load_store_of_disjoint (by omega), hm1,
      Mem.load_store_of_lt (by norm_num)]
  have hring : memLinks.Ring (nodes K.slabPoolG) m2 (containerAt K.slabPoolG k + 8) [] := by
    rw [hm2]
    exact LinkHeap.ring_initRing (nodes_lawful _) (hnode k h6 h11)
  refine ⟨m2, e, ⟨hcur, hring⟩, fun j hj6 hj11 hne hj => ⟨?_, ?_⟩⟩
  · have hap := containerAt_apart K.slabPoolG hj6 h6 hne
    exact (Mem.load_congr fun x h1 h2 => hout x (by omega)).trans hj.1
  · have hap := containerAt_apart K.slabPoolG hj6 h6 hne
    refine ring_congr hj.2 fun n hn x h1 h2 => hout x ?_
    rw [List.mem_singleton] at hn
    omega

/-- The loop of `init_slab` empties the containers it visits. -/
lemma initContainers_spec {l : List ℕ} (hl : ∀ k ∈ l, 6 ≤ k ∧ k ≤ 11)
    (hg : K.slabPoolG + 192 ≤ 2 ^ 64) :
    ∃ m, l.foldl initContainer K = K.withMem m ∧
      ∀ j, 6 ≤ j → j ≤ 11 → (j ∈ l ∨ Ready K.mem K.slabPoolG j) → Ready m K.slabPoolG j := by
  induction l generalizing K with
  | nil =>
    refine ⟨K.mem, rfl, fun j _ _ hj => ?_⟩
    rcases hj with hj | hj
    · cases hj
    · exact hj
  | cons k l ih =>
    obtain ⟨h6, h11⟩ := hl k List.mem_cons_self
    obtain ⟨m1, e1, hk, hother⟩ := initContainer_spec hg h6 h11
    obtain ⟨m2, e2, hrest⟩ := ih (K := K.withMem m1) (fun j hj => hl j (List.mem_cons_of_mem _ hj)) hg
    refine ⟨m2, ?_, fun j hj6 hj11 hj => hrest j hj6 hj11 ?_⟩
    · rw [List.foldl_cons, e1, e2]
      rfl
    · by_cases hjk : j = k
      · exact .inr (hjk ▸ hk)
      · rcases hj with hj | hj
        · exact .inl ((List.mem_cons.1 hj).resolve_left hjk)
        · exact .inr (hother j hj6 hj11 hjk hj)

/-- `init_slab` empties all containers. -/
lemma initSlab_spec (hg : K.slabPoolG + 192 ≤ 2 ^ 64) :
    ∃ m, K.initSlab = K.withMem m ∧ PoolAt m K.slabPoolG Pool.empty := by
  obtain ⟨m, e, hready⟩ := initContainers_spec (K := K) (l := List.range' minSlabBlockOrder 6)
    (fun k hk => by
      rw [List.mem_range'_1] at hk
      simp only [minSlabBlockOrder] at hk
      omega) hg
  have hall : ∀ j, 6 ≤ j → j ≤ 11 → Ready m K.slabPoolG j := by
    intro j hj6 hj11
    refine hready j hj6 hj11 (.inl ?_)
    rw [List.mem_range'_1]
    simp only [minSlabBlockOrder]
    omega
  refine ⟨m, e, fun j hj6 hj11 => (hall j hj6 hj11).1, fun j hj6 hj11 => (hall j hj6 hj11).2, ?_⟩
  rintro s σ ⟨⟩

/-- The kernel after `init_buddy` and `init_slab`. -/
lemma boot_spec (img : Image) (m : Mem) (ha : HasAlignedPage (initRegion img.imgEnd)) :
    ∃ K h, boot img m = .ok K ∧ K.Rep h ∧ Heap.Inv K.slabPoolG h ∅ ∧ h.extents ∅ = ∅ ∧
      h.pool = Pool.empty ∧ K.slabPoolG = img.slabPoolG ∧ K.releases = [] ∧
      SameBounds (initRegion img.imgEnd) h.buddy := by
  obtain ⟨b, eb, hinv, hbd, hslab⟩ := initBuddy_spec ha
  have hbound := hinv.geo.bound
  have hbelow : img.slabPoolG + 192 ≤ b.startAddr := by
    rw [hbd.1]
    exact img.below
  obtain ⟨m', e, hp⟩ := initSlab_spec (K := ⟨b, m, img.slabPoolG, []⟩)
    (show img.slabPoolG + 192 ≤ 2 ^ 64 by omega)
  have hS : Heap.slabChunks ⟨b, Pool.empty⟩ = ∅ := by
    ext c
    simp [Heap.slabChunks, Pool.empty]
  refine ⟨⟨b, m', img.slabPoolG, []⟩, ⟨b, Pool.empty⟩, ?_, ⟨rfl, hp⟩,
    ⟨⟨⟨?_, ?_, ?_, ?_⟩, ?_, ?_, ?_, ?_, ?_, hbelow⟩, ⟨?_, ?_, ?_, ?_⟩⟩, ?_, rfl, rfl, rfl, hbd⟩
  · rw [boot, eb, ok_bind, e]
    rfl
  · rintro s σ ⟨⟩
  · rintro k s ⟨⟩
  · rintro k s ⟨⟩
  · exact fun _ => List.nodup_nil
  · rw [hS, Set.union_empty]
    exact hinv
  · rintro c ⟨⟩
  · rintro s σ ⟨⟩
  · rw [hS]
    rintro c ⟨⟩
  · exact fun p _ _ => hslab p
  · rintro k s σ ⟨⟩
  · rintro k s ⟨⟩
  · rintro k s ⟨⟩
  · rintro s σ ⟨⟩
  · ext e
    constructor
    · rintro (⟨s, σ, hs, -⟩ | ⟨c, hc, -⟩)
      · cases hs
      · cases hc
    · rintro ⟨⟩

/-! ## Calls -/

/-- `K'` is the kernel after a call that takes the heap from `h` to `h'`. -/
structure Follows (K : Kernel) (h : Heap) (pages : Set Block) (K' : Kernel) (h' : Heap)
    (pages' : Set Block) : Prop where
  rep : K'.Rep h'
  slabPoolG : K'.slabPoolG = K.slabPoolG
  keeps : ∀ e ∈ h.extents pages, e ∈ h'.extents pages' → ∀ x ∈ e.pages, K'.mem x = K.mem x

/-- Nothing is done on both sides. -/
lemma Follows.refl (hr : K.Rep h) (pages pages' : Set Block) : Follows K h pages K h pages' :=
  ⟨hr, rfl, fun _ _ _ _ _ => rfl⟩

/-- The buddy allocator changes and the slabs do not. -/
lemma Follows.withBuddy (hr : K.Rep h) (bud : Buddy) (pages pages' : Set Block) :
    Follows K h pages (K.withBuddy bud) ⟨bud, h.pool⟩ pages' :=
  ⟨⟨rfl, hr.pool⟩, rfl, fun _ _ _ _ _ => rfl⟩

/-- `slab_alloc`. -/
lemma slabAlloc_follows (hr : K.Rep h) (hi : Heap.Inv K.slabPoolG h pages) {size : ℕ}
    (e : h.slabAlloc size = .ok (b, h')) :
    ∃ K', K.slabAlloc size = .ok (b, K') ∧ Follows K h pages K' h' pages ∧
      K'.releases = K.releases := by
  unfold Heap.slabAlloc at e
  unfold slabAlloc
  by_cases hsz : 0 < size ∧ size ≤ 2048
  · obtain ⟨h6, h11⟩ := sizeClass_le_eleven hsz.2
    rw [sizeToSlabOrder_eq hsz.1 hsz.2] at e ⊢
    simp only [] at e ⊢
    obtain ⟨K', e', hr', hw, -⟩ := allocOrder_refines hr hi h6 h11 e
    refine ⟨K', e', ⟨hr', hw.slabPoolG, fun f hf hf' x hx => hw.mem x ?_⟩, hw.releases⟩
    have hx4096 : 4096 ≤ x := by
      have hpl := (hi.toCore.extents_place hf).1
      have hab := hi.above
      have hst := hi.buddy.geo.start
      have hx1 := hx.1
      omega
    have hpow : 2 ^ sizeClass size ≤ 2 ^ 11 := Nat.pow_le_pow_right (by norm_num) h11
    rcases Heap.alloc_spec hi h6 h11 with ⟨e1, -⟩ | ⟨p, h1, e1, hg⟩
    · rw [e1] at e
      cases e
      rintro (ho | ho)
      · exact hi.toCore.extents_not_owns hf hx ho
      · have := ho.2
        omega
    · rw [e1] at e
      cases e
      have ht := hg.took h11
      rintro (ho | ho)
      · exact ht.inv.toCore.extents_not_owns hf' hx ho
      · have hne : f ≠ ⟨b, sizeClass size⟩ := fun e => ht.fresh (e ▸ hf)
        refine ht.inv.toCore.extents_disjoint hf' ?_ hne hx ho.2
        rw [ht.extents]
        exact Set.mem_insert _ _
  · rw [sizeToSlabOrder_eq_none hsz] at e ⊢
    cases e
    exact ⟨K, rfl, Follows.refl hr _ _, rfl⟩

/-- `get_pages`. -/
lemma getPages_follows (pages pages' : Set Block) (hr : K.Rep h)
    (e : h.getPages k = .ok (b, h')) :
    ∃ K', K.getPages k = .ok (b, K') ∧ Follows K h pages K' h' pages' ∧
      K'.releases = K.releases := by
  unfold Heap.getPages at e
  unfold getPages
  rw [hr.buddy]
  cases eb : h.buddy.buddyGetPages k with
  | error f =>
    rw [eb] at e
    cases e
  | ok r =>
    obtain ⟨page, bud⟩ := r
    rw [eb, ok_bind] at e
    cases page with
    | none =>
      cases e
      exact ⟨_, rfl, Follows.withBuddy hr _ _ _, rfl⟩
    | some page =>
      cases e
      exact ⟨_, rfl, Follows.withBuddy hr _ _ _, rfl⟩

/-- `free_pages`. -/
lemma freePages_follows (pages pages' : Set Block) (hr : K.Rep h)
    (e : h.freePages b = .ok h') :
    ∃ K', K.freePages b = .ok K' ∧ Follows K h pages K' h' pages' ∧ K'.releases = K.releases := by
  unfold Heap.freePages at e
  unfold freePages
  rw [hr.buddy]
  cases ev : h.buddy.virtToPage b with
  | none =>
    rw [ev] at e
    cases e
    exact ⟨K, rfl, Follows.refl hr _ _, rfl⟩
  | some page =>
    rw [ev] at e
    obtain ⟨bud, eb, e'⟩ := bind_eq_ok.1 e
    cases e'
    refine ⟨K.withBuddy bud, ?_, Follows.withBuddy hr _ _ _, rfl⟩
    simp only [eb, ok_bind, pure_eq_ok]

/-- `kmalloc`, by size. -/
lemma kmalloc_slab (K : Kernel) {size : ℕ} (h0 : 0 < size) (h1 : size ≤ 2048) :
    K.kmalloc size = K.slabAlloc size := by
  rw [kmalloc, if_neg (by omega), __kmalloc, slabOrderToSize_max, if_pos h1]
  cases K.slabAlloc size <;> rfl

/-- Sizes above the slabs are served by `get_pages`. -/
lemma kmalloc_pages (K : Kernel) {size : ℕ} (h1 : 2048 < size) (h2 : size ≤ 2 ^ 22) :
    K.kmalloc size = K.getPages (sizeClass size - 12) := by
  rw [kmalloc, if_neg (by omega), __kmalloc, slabOrderToSize_max, if_neg (by omega),
    buddyChunkSize_max, if_pos h2, sizeToPageOrder_eq h1 h2]
  simp only [getPagesOf]
  cases K.getPages (sizeClass size - 12) <;> rfl

/-- Sizes above the largest chunk are not served. -/
lemma kmalloc_large (K : Kernel) {size : ℕ} (h : 2 ^ 22 < size) : K.kmalloc size = .ok (0, K) := by
  rw [kmalloc, if_neg (by omega), __kmalloc, slabOrderToSize_max, if_neg (by omega),
    buddyChunkSize_max, if_neg (by omega)]
  rfl

/-- `kmalloc`. -/
lemma kmalloc_follows (hr : K.Rep h) (hi : Heap.Inv K.slabPoolG h pages) {size : ℕ}
    (e : h.kmalloc size = .ok (b, h')) :
    ∃ K', K.kmalloc size = .ok (b, K') ∧
      (∀ pages', (size ≤ 2048 → pages' = pages) → Follows K h pages K' h' pages') ∧
      K'.releases = K.releases := by
  unfold Heap.kmalloc at e
  by_cases h0 : size = 0
  · rw [if_pos h0] at e
    cases e
    exact ⟨K, by rw [kmalloc, if_pos h0], fun pages' _ => Follows.refl hr _ _, rfl⟩
  · rw [if_neg h0] at e
    by_cases h1 : size ≤ 2048
    · rw [if_pos h1] at e
      rw [kmalloc_slab K (Nat.pos_of_ne_zero h0) h1]
      obtain ⟨K', e', hf, hrel⟩ := slabAlloc_follows hr hi e
      exact ⟨K', e', fun pages' hp => hp h1 ▸ hf, hrel⟩
    · rw [if_neg h1] at e
      by_cases h2 : size ≤ 2 ^ 22
      · rw [if_pos h2] at e
        rw [kmalloc_pages K (not_le.1 h1) h2]
        obtain ⟨K', e', -, hrel⟩ := getPages_follows pages pages hr e
        refine ⟨K', e', fun pages' _ => ?_, hrel⟩
        obtain ⟨K2, e2, hf, -⟩ := getPages_follows pages pages' hr e
        rw [e'] at e2
        cases e2
        exact hf
      · rw [if_neg h2] at e
        cases e
        exact ⟨K, kmalloc_large K (not_le.1 h2), fun pages' _ => Follows.refl hr _ _, rfl⟩

/-- The slab `s` is current in a container, or linked into its partial list. -/
def Attached (m : Mem) (base s : ℕ) : Prop :=
  ∃ k, 6 ≤ k ∧ k ≤ 11 ∧ (m.load (containerAt base k) 8 = s ∨
    ∃ n ns, forEachInList memLinks m (containerAt base k + 8) n
      (memLinks.next m (containerAt base k + 8)) = some ns ∧ s + 16 ∈ ns)

/-- The slabs that a container names can be reached from it. -/
lemma attached {m : Mem} {base : ℕ} {P : Pool} (hp : PoolAt m base P) (h6 : 6 ≤ k) (h11 : k ≤ 11)
    (hs : (P.container k).current = some s ∨ s ∈ (P.container k).partials) : Attached m base s := by
  refine ⟨k, h6, h11, ?_⟩
  rcases hs with hs | hs
  · left
    rw [hp.current k h6 h11, hs]
    rfl
  · exact .inr ⟨_, _, forEachInList_ring memLinks (hp.ring k h6 h11) 0, List.mem_map_of_mem hs⟩

/-- What a call that takes the block `b` back does to the slabs: the chunk of its slab is given back
exactly when `b` was the last block in the hands of a caller, and the slab is attached at that time. -/
def Settles (K : Kernel) (h : Heap) (pages : Set Block) (b : ℕ) (K' : Kernel) : Prop :=
  (¬ h.IsLast pages b ∧ K'.releases = K.releases) ∨
    (h.IsLast pages b ∧ ∃ s m, K'.releases = ⟨s, m⟩ :: K.releases ∧ Attached m K.slabPoolG s)

/-- `slab_free` of a block in the hands of a caller. -/
lemma slabFree_follows (hr : K.Rep h) (hi : Heap.Inv K.slabPoolG h pages)
    (hb : (⟨b, k⟩ : Block) ∈ h.pool.live) (e : h.slabFree b = .ok h') :
    ∃ K', K.slabFree b = .ok (0, K') ∧ Follows K h pages K' h' pages ∧
      Settles K h pages b K' := by
  obtain ⟨h1, e1, hput⟩ := Heap.slabFree_spec hi hb
  rw [e1] at e
  cases e
  have hbe : (⟨b, k⟩ : Block) ∈ h.extents pages := .inl hb
  obtain ⟨s, σ, hs, ho, hbs, hbf⟩ := id hb
  simp only [] at ho hbs hbf
  have hw := hi.layout.slabs s σ hs
  have hbd := hw.bounds hbs
  have hab := hw.above
  have hge := two_pow_order_ge hw.order_ge
  obtain ⟨page, hv, hslab⟩ := hi.toCore.slab_of_mem hs (x := b) (by omega) (by omega)
  have hfree : h.free s b = .ok h' := by
    rw [Heap.slabFree, if_neg (by omega), hv] at e1
    simp only [hslab] at e1
    exact e1
  obtain ⟨K', m, e2, hr', hg, hmem, hpool, hrel⟩ := freeBlock_refines hr hi hs hbs hbf hfree
  have haligned : b % slabOrderToSize minSlabBlockOrder = 0 := by
    have hd := (hi.toCore.extents_place hbe).2.2
    simp only [] at hd
    rw [ho] at hd
    exact Nat.mod_eq_zero_of_dvd ((pow_dvd_pow 2 hw.order_ge).trans hd)
  have hheader : K.slabGetHeader b = .ok s := by
    rw [slabGetHeader, hr.buddy, hv]
    simp only [hslab]
    rw [if_neg (by omega)]
  refine ⟨K', ?_, ⟨hr', hg, fun f hf hf' x hx => hmem x ?_⟩, ?_⟩
  · rw [slabFree, if_neg (by omega), if_neg (not_not.2 haligned)]
    simp only [hheader, ok_bind, e2]
    rfl
  · rw [hput.extents] at hf'
    rintro (hx' | hx')
    · exact hi.toCore.extents_not_owns hf hx hx'
    · rw [← ho] at hx'
      exact hi.toCore.extents_disjoint hf hbe hf'.2 hx hx'
  · have hiff := hi.toCore.isLast_iff hs hbs hbf
    by_cases hlast : σ.free.length + 2 = 2 ^ (17 - σ.order)
    · rw [if_pos hlast] at hrel
      refine .inr ⟨hiff.2 hlast, s, m, hrel, attached hpool hw.order_ge hw.order_le ?_⟩
      have hge' := two_pow_sub_ge hw.order_le
      by_cases hcur : (h.pool.container σ.order).current = some s
      · exact .inl hcur
      · have hne : σ.free ≠ [] := by
          intro hnil
          rw [hnil, List.length_nil] at hlast
          omega
        have hp : s ∈ (h.pool.container σ.order).partials := mem_partials hi.settled hs hne hcur
        exact .inr hp
    · rw [if_neg hlast] at hrel
      exact .inl ⟨fun hl => hlast (hiff.1 hl), hrel⟩

/-- `kfree` of an extent in the hands of a caller. -/
lemma kfree_follows (hr : K.Rep h) (hi : Heap.Inv K.slabPoolG h pages)
    (hb : (⟨b, k⟩ : Block) ∈ h.extents pages) (hz : b ≠ zeroSizePtr) (e : h.kfree b = .ok h') :
    ∃ K', K.kfree b = .ok K' ∧
      (∀ pages', (k ≤ 11 → pages' = pages) → Follows K h pages K' h' pages') ∧
      ((k ≤ 11 ∧ Settles K h pages b K') ∨ (12 ≤ k ∧ K'.releases = K.releases)) := by
  rw [Heap.kfree, if_neg hz] at e
  rw [kfree, if_neg hz, hr.buddy]
  rcases hb with hb | hb
  · have hk := (hi.toCore.order_live hb).2
    simp only [] at hk
    obtain ⟨s, σ, hs, ho, hbs, hbf⟩ := id hb
    have hw := hi.layout.slabs s σ hs
    have hbd := hw.bounds hbs
    have hab := hw.above
    have hpos : 0 < 2 ^ σ.order := by positivity
    simp only [] at hbd
    obtain ⟨page, hv, hslab⟩ := hi.toCore.slab_of_mem hs (x := b) (by omega) (by omega)
    have hs0 : s ≠ 0 := by omega
    rw [hv] at e ⊢
    simp only [hslab] at e ⊢
    rw [if_pos hs0] at e ⊢
    obtain ⟨K', e', hf, hset⟩ := slabFree_follows hr hi hb e
    refine ⟨K', ?_, fun pages' hp => hp hk ▸ hf, .inl ⟨hk, hset⟩⟩
    simp only [e', ok_bind, pure_eq_ok]
  · have hk := Heap.order_pageExtents hb
    obtain ⟨c, hc, e'⟩ := id hb
    injection e' with eb ek
    obtain ⟨hv, hslab⟩ := hi.toCore.slab_of_page hc
    rw [← eb] at hv
    rw [hv] at e ⊢
    simp only [hslab] at e ⊢
    rw [if_neg (not_not.2 rfl)] at e ⊢
    obtain ⟨K', e', -, hrel⟩ := freePages_follows pages pages hr e
    refine ⟨K', e', fun pages' _ => ?_, .inr ⟨hk, hrel⟩⟩
    obtain ⟨K2, e2, hf, -⟩ := freePages_follows pages pages' hr e
    rw [e'] at e2
    cases e2
    exact hf

end Kernel

end KingdoKernel
