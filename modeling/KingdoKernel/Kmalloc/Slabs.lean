import KingdoKernel.Kmalloc.Release

/-!
# The slabs between two calls

`slabs_consistent`: in every reached state the headers, the chains of free blocks, the containers and
the page descriptors describe the same slabs, and the blocks of a slab after its header are the ones in
its chain and the ones in the hands of callers. `calculate_slab_free_block_count` therefore counts, for
every order, the blocks that are not in use.
-/

namespace KingdoKernel.Slab
open Tiles

/-! ## The free blocks of an order -/

namespace Pool

variable {base k b : ℕ} {P : Pool}

/-- The free blocks of the slab at `s`. -/
def freeOf (P : Pool) (s : ℕ) : List ℕ := ((P.slab s).map Header.free).getD []

/-- The slabs that a container refers to. -/
def referred (P : Pool) (k : ℕ) : List ℕ :=
  (P.container k).current.toList ++ (P.container k).partials

/-- The free blocks of the slabs that a container refers to. -/
def available (P : Pool) (k : ℕ) : List ℕ := (P.referred k).flatMap P.freeOf

/-- The slabs that a container names. -/
lemma mem_referred {s : ℕ} :
    s ∈ P.referred k ↔ (P.container k).current = some s ∨ s ∈ (P.container k).partials := by
  simp [referred]

/-- A slab that a container names exists and has its order. -/
lemma Layout.of_referred (h : P.Layout base) {s : ℕ} (hs : s ∈ P.referred k) :
    ∃ σ, P.slab s = some σ ∧ σ.order = k := by
  rcases mem_referred.1 hs with hs | hs
  · exact h.current k s hs
  · exact h.partials k s hs

/-- Slabs that are not referred to have no free block. -/
lemma mem_available (hl : P.Layout base) (hs : P.Settled) :
    b ∈ P.available k ↔ ∃ s σ, P.slab s = some σ ∧ σ.order = k ∧ b ∈ σ.free := by
  simp only [available, List.mem_flatMap, freeOf]
  constructor
  · rintro ⟨s, hr, hb⟩
    obtain ⟨σ, hσ, ho⟩ := hl.of_referred hr
    rw [hσ] at hb
    exact ⟨s, σ, hσ, ho, hb⟩
  · rintro ⟨s, σ, hσ, rfl, hb⟩
    refine ⟨s, ?_, by rw [hσ]; exact hb⟩
    by_contra hno
    rw [mem_referred, not_or] at hno
    have hnil := hs.others s σ hσ hno.1 hno.2
    rw [hnil] at hb
    cases hb

/-- No block is free twice. -/
lemma nodup_available (hl : P.Layout base) (hs : P.Settled) : (P.available k).Nodup := by
  refine List.nodup_flatMap.2 ⟨fun s hr => ?_, ?_⟩
  · obtain ⟨σ, hσ, -⟩ := hl.of_referred hr
    rw [freeOf, hσ]
    exact (hl.slabs s σ hσ).nodup
  · have hnd : (P.referred k).Nodup := by
      refine List.Nodup.append (by cases (P.container k).current <;> simp) (hl.nodup k) ?_
      intro s h1 h2
      exact hs.apart k s (Option.mem_toList.1 h1) h2
    refine hnd.pairwise_of_forall_ne fun s hs t ht hne => ?_
    simp only [Function.onFun, List.disjoint_left]
    intro b hb hb'
    obtain ⟨σ, hσ, -⟩ := hl.of_referred hs
    obtain ⟨τ, hτ, -⟩ := hl.of_referred ht
    rw [freeOf, hσ] at hb
    rw [freeOf, hτ] at hb'
    exact hne (hl.slab_eq_of_mem hσ hτ ((hl.slabs s σ hσ).blocks b hb) ((hl.slabs t τ hτ).blocks b hb'))

end Pool

end KingdoKernel.Slab

namespace KingdoKernel.Kmalloc
open Slab Buddy Tiles Kernel ListHead

variable {img : Image} {S : Sys} {h : Heap} {pages : Set Block} {k s b : ℕ}

/-! ## The slabs in terms of the source -/

namespace Sys

/-- Some page descriptor names the slab `s`. -/
def IsSlab (S : Sys) (s : ℕ) : Prop :=
  s ≠ 0 ∧ ∃ p < S.kernel.buddy.pageNum, (S.kernel.buddy.pages p).slab = s

/-- Some caller holds a pointer to `b`. -/
def InUse (S : Sys) (b : ℕ) : Prop := ∃ a ∈ S.live, a.Valid ∧ a.ptr = b

end Sys

/-- The slab `s` has the order `k`. -/
structure SlabAt (S : Sys) (s k : ℕ) : Prop where
  /-- the order is in the header -/
  order : S.kernel.mem.load s 4 = k
  /-- the slab starts at a chunk of 32 pages -/
  chunk : ∃ p, S.kernel.buddy.virtToPage s = some p ∧ S.kernel.buddy.pageToVirt p = s ∧
    p + slabPagesCount ≤ S.kernel.buddy.pageNum ∧ (S.kernel.buddy.pages p).order = 5 ∧
    (S.kernel.buddy.pages p).allocated = 1
  /-- `total_block_count` -/
  total : S.kernel.mem.load (s + 36) 4 = slabSize / slabOrderToSize k
  /-- the chain of free blocks ends, has `free_block_count` different elements, and the other blocks are
  the ones in use -/
  chain : ∃ bs, S.kernel.mem.Chain (S.kernel.mem.load (s + 8) 8) bs ∧ bs.Nodup ∧
    bs.length = S.kernel.mem.load (s + 32) 4 ∧ (∀ b ∈ bs, b ∈ blocks s k) ∧
    ∀ b ∈ blocks s k, b ∈ bs ↔ ¬ S.InUse b
  /-- exactly the descriptors of its pages name the slab -/
  named : ∀ p < S.kernel.buddy.pageNum, (S.kernel.buddy.pages p).slab = s ↔
    s ≤ S.kernel.buddy.pageToVirt p ∧ S.kernel.buddy.pageToVirt p < s + slabSize

/-- The container of order `k` has the partial list `ns`. -/
structure ContainerState (S : Sys) (k : ℕ) (ns : List ℕ) : Prop where
  /-- `for_each_in_list` visits the nodes and comes to an end -/
  visits : ∀ n, forEachInList memLinks S.kernel.mem (S.kernel.slabContainer k + 8) (ns.length + 1 + n)
    (memLinks.next S.kernel.mem (S.kernel.slabContainer k + 8)) = some ns
  /-- no slab is linked in twice -/
  nodup : ns.Nodup
  /-- the current slab has a free block and is not linked in -/
  current : S.kernel.current (S.kernel.slabContainer k) ≠ 0 →
    S.IsSlab (S.kernel.current (S.kernel.slabContainer k)) ∧
    S.kernel.mem.load (S.kernel.current (S.kernel.slabContainer k)) 4 = k ∧
    1 ≤ S.kernel.mem.load (S.kernel.current (S.kernel.slabContainer k) + 32) 4 ∧
    S.kernel.current (S.kernel.slabContainer k) + 16 ∉ ns
  /-- a slab that is linked in has a free block and a block in use -/
  partials : ∀ n ∈ ns, ∃ s, n = s + 16 ∧ S.IsSlab s ∧ S.kernel.mem.load s 4 = k ∧
    1 ≤ S.kernel.mem.load (s + 32) 4 ∧
    S.kernel.mem.load (s + 32) 4 + 2 ≤ S.kernel.mem.load (s + 36) 4
  /-- the other slabs have no free block -/
  others : ∀ s, S.IsSlab s → S.kernel.mem.load s 4 = k → S.kernel.current (S.kernel.slabContainer k) ≠ s →
    s + 16 ∉ ns → S.kernel.mem.load (s + 32) 4 = 0

/-- What the headers, the containers and the descriptors say about the slabs. -/
structure SlabsConsistent (S : Sys) : Prop where
  slabs : ∀ s, S.IsSlab s → ∃ k, 6 ≤ k ∧ k ≤ 11 ∧ SlabAt S s k
  containers : ∀ k, 6 ≤ k → k ≤ 11 → ∃ ns, ContainerState S k ns
  /-- the counts are those of the blocks not in use -/
  counts : ∃ n, ∀ fuel, n ≤ fuel → S.kernel.calculateSlabFreeBlockCount fuel =
    some ((List.range' minSlabBlockOrder 6).map fun k =>
      Set.ncard {b | ∃ s, S.IsSlab s ∧ S.kernel.mem.load s 4 = k ∧ b ∈ blocks s k ∧ ¬ S.InUse b})

/-! ## The invariant in these terms -/

/-- The slabs in memory are those of the heap. -/
lemma Good.isSlab_iff (hg : Good img S h) (hi : Heap.Inv S.kernel.slabPoolG h pages) :
    S.IsSlab s ↔ ∃ σ, h.pool.slab s = some σ := by
  constructor
  · rintro ⟨h0, p, hp, hs⟩
    rw [hg.rep.buddy] at hp hs
    obtain ⟨σ, hσ, -⟩ := hi.toCore.slab_of_descriptor hp hs h0
    exact ⟨σ, hσ⟩
  · rintro ⟨σ, hσ⟩
    obtain ⟨p, hp, hm, hend, -⟩ := hi.toCore.chunk hσ
    refine ⟨(slab_address hi.layout hσ).1, p, ?_, ?_⟩
    · rw [hg.rep.buddy]
      omega
    · rw [hg.rep.buddy, hi.owned _ hm p (Block.start_mem ⟨p, 5⟩), hp]

/-- A block of a slab is in use exactly when it is not free. -/
lemma Good.inUse_iff (hi : Heap.Inv S.kernel.slabPoolG h pages)
    (hext : ∀ e, e ∈ S.extents ↔ e ∈ h.extents pages) {σ : Header} (hs : h.pool.slab s = some σ)
    (hb : b ∈ blocks s σ.order) : S.InUse b ↔ b ∉ σ.free := by
  constructor
  · rintro ⟨a, ha, hv, rfl⟩ hf
    have hpos : 0 < 2 ^ σ.order := by positivity
    refine hi.toCore.extents_not_owns (Good.extent_mem hext ha hv) a.extent.start_mem ?_
    exact .inr ⟨s, σ, hs, .inr ⟨a.ptr, hf, le_rfl, Nat.lt_add_of_pos_right hpos⟩⟩
  · intro hf
    have he : (⟨b, σ.order⟩ : Block) ∈ h.extents pages := .inl ⟨s, σ, hs, rfl, hb, hf⟩
    obtain ⟨a, ha, hv, e⟩ := mem_extents.1 ((hext _).2 he)
    exact ⟨a, ha, hv, congrArg Block.start e⟩

/-- The pages of a slab. -/
lemma named_iff {base : ℕ} (hi : Heap.Inv base h pages) {σ : Header}
    (hs : h.pool.slab s = some σ) {p : ℕ} (hp : p < h.buddy.pageNum) :
    (h.buddy.pages p).slab = s ↔ s ≤ h.buddy.pageToVirt p ∧ h.buddy.pageToVirt p < s + slabSize := by
  have h0 := (slab_address hi.layout hs).1
  constructor
  · intro e
    obtain ⟨σ', -, h1, h2⟩ := hi.toCore.slab_of_descriptor hp e h0
    simp only [slabSize]
    exact ⟨h1, by omega⟩
  · rintro ⟨h1, h2⟩
    obtain ⟨page, hv, e⟩ := hi.toCore.slab_of_mem hs h1 h2
    rw [hi.buddy.geo.virtToPage_pageToVirt hp] at hv
    cases hv
    exact e

/-- A slab of the heap in memory. -/
lemma Good.slabAt (hg : Good img S h) (hi : Heap.Inv S.kernel.slabPoolG h pages)
    (hext : ∀ e, e ∈ S.extents ↔ e ∈ h.extents pages) {σ : Header} (hs : h.pool.slab s = some σ) :
    SlabAt S s σ.order := by
  have hw := hi.layout.slabs s σ hs
  have hh := hg.rep.pool.header s σ hs
  obtain ⟨p, hp, hm, hend, hv⟩ := hi.toCore.chunk hs
  refine ⟨hh.order, ⟨p, ?_, ?_, ?_, ?_, ?_⟩, ?_, ⟨σ.free, hh.chain, hw.nodup, hh.count.symm, hw.blocks,
    fun b hb => ?_⟩, fun q hq => ?_⟩
  · rw [hg.rep.buddy, hv]
  · rw [hg.rep.buddy, hp]
  · rw [hg.rep.buddy]
    exact hend
  · rw [hg.rep.buddy]
    exact hi.buddy.order _ (.inr (.inl hm))
  · rw [hg.rep.buddy]
    exact hi.buddy.flagged p (by omega) ⟨_, .inl hm, rfl⟩
  · rw [hh.total, slabSize_div (hw.order_le.trans (by norm_num))]
  · rw [Good.inUse_iff hi hext hs hb, not_not]
  · rw [hg.rep.buddy] at hq ⊢
    exact named_iff hi hs hq

/-- The current slab of a container, if there is one. -/
lemma Good.current_eq (hg : Good img S h) (h6 : 6 ≤ k) (h11 : k ≤ 11) (h0 : s ≠ 0) :
    S.kernel.current (S.kernel.slabContainer k) = s ↔ (h.pool.container k).current = some s := by
  rw [current_refines hg.rep h6 h11]
  cases hc : (h.pool.container k).current with
  | none => exact iff_of_false (Ne.symm h0) (Option.some_ne_none s).symm
  | some t => simp

/-- A container of the heap in memory. -/
lemma Good.containerState (hg : Good img S h) (hi : Heap.Inv S.kernel.slabPoolG h pages)
    (h6 : 6 ≤ k) (h11 : k ≤ 11) :
    ContainerState S k ((h.pool.container k).partials.map (· + 16)) := by
  have hring := hg.rep.pool.ring k h6 h11
  have hmem : ∀ {t}, t + 16 ∈ (h.pool.container k).partials.map (· + 16) ↔
      t ∈ (h.pool.container k).partials := by
    intro t
    simp
  refine ⟨fun n => forEachInList_ring memLinks hring n, (List.nodup_cons.1 hring.nodup).2, fun h0 => ?_,
    fun n hn => ?_, fun s hs hk hcur hp => ?_⟩
  · obtain ⟨s, hs⟩ : ∃ s, S.kernel.current (S.kernel.slabContainer k) = s := ⟨_, rfl⟩
    rw [hs] at h0 ⊢
    have hc := (hg.current_eq h6 h11 h0).1 hs
    obtain ⟨b, l, hσ⟩ := hi.current_free hc
    have hh := hg.rep.pool.header s _ hσ
    refine ⟨(hg.isSlab_iff hi).2 ⟨_, hσ⟩, hh.order, ?_, fun hp => hi.settled.apart k s hc (hmem.1 hp)⟩
    rw [hh.count, List.length_cons]
    omega
  · obtain ⟨s, hs, rfl⟩ := List.mem_map.1 hn
    obtain ⟨σ, hσ, rfl⟩ := hi.layout.partials k s hs
    have hh := hg.rep.pool.header s σ hσ
    have hlen := hi.settled.partials _ s hs σ hσ
    refine ⟨s, rfl, (hg.isSlab_iff hi).2 ⟨σ, hσ⟩, hh.order, ?_, ?_⟩
    · rw [hh.count]
      exact hlen.1
    · rw [hh.count, hh.total]
      exact hlen.2
  · obtain ⟨σ, hσ⟩ := (hg.isSlab_iff hi).1 hs
    have hh := hg.rep.pool.header s σ hσ
    rw [hh.order] at hk
    subst hk
    rw [hh.count, hi.settled.others s σ hσ ?_ fun hm => hp (hmem.2 hm), List.length_nil]
    exact fun hc => hcur ((hg.current_eq h6 h11 hs.1).2 hc)

/-- The count of a container is the number of the free blocks it can hand out. -/
lemma Good.containerFreeBlockCount (hg : Good img S h) (hi : Heap.Inv S.kernel.slabPoolG h pages)
    (h6 : 6 ≤ k) (h11 : k ≤ 11) (n : ℕ) :
    S.kernel.containerFreeBlockCount ((h.pool.container k).partials.length + 1 + n)
      (S.kernel.slabContainer k) = some (h.pool.available k).length := by
  have hvis := (hg.containerState hi h6 h11).visits n
  rw [List.length_map] at hvis
  have hcount : ∀ {t}, t ∈ h.pool.referred k →
      S.kernel.mem.load (t + 32) 4 = (h.pool.freeOf t).length := by
    intro t ht
    obtain ⟨σ, hσ, -⟩ := hi.layout.of_referred ht
    rw [(hg.rep.pool.header t σ hσ).count, Pool.freeOf, hσ]
    rfl
  have hcur : (if S.kernel.current (S.kernel.slabContainer k) ≠ 0
      then S.kernel.mem.load (S.kernel.current (S.kernel.slabContainer k) + 32) 4 else 0) =
      ((h.pool.container k).current.toList.map fun t => (h.pool.freeOf t).length).sum := by
    cases hc : (h.pool.container k).current with
    | none =>
      rw [current_refines hg.rep h6 h11, hc]
      rfl
    | some t =>
      obtain ⟨σ, hσ, -⟩ := hi.layout.current k t hc
      have h0 := (slab_address hi.layout hσ).1
      rw [(hg.current_eq h6 h11 h0).2 hc, if_pos h0, hcount (Pool.mem_referred.2 (.inl hc))]
      simp
  have hpart : (((h.pool.container k).partials.map (· + 16)).map fun node =>
      S.kernel.mem.load (node - 16 + 32) 4) =
      (h.pool.container k).partials.map fun t => (h.pool.freeOf t).length := by
    rw [List.map_map]
    refine List.map_congr_left fun t ht => ?_
    rw [Function.comp_apply, Nat.add_sub_cancel, hcount (Pool.mem_referred.2 (.inr ht))]
  rw [Kernel.containerFreeBlockCount, hvis]
  simp only [Option.map_some, hcur, hpart]
  rw [Pool.available, List.length_flatMap, Pool.referred, List.map_append, List.sum_append]

/-- The free blocks in terms of the source. -/
lemma Good.ncard_available (hg : Good img S h) (hi : Heap.Inv S.kernel.slabPoolG h pages)
    (hext : ∀ e, e ∈ S.extents ↔ e ∈ h.extents pages) (k : ℕ) :
    Set.ncard {b | ∃ s, S.IsSlab s ∧ S.kernel.mem.load s 4 = k ∧ b ∈ blocks s k ∧ ¬ S.InUse b} =
      (h.pool.available k).length := by
  have hset : {b | ∃ s, S.IsSlab s ∧ S.kernel.mem.load s 4 = k ∧ b ∈ blocks s k ∧ ¬ S.InUse b} =
      ((h.pool.available k).toFinset : Set ℕ) := by
    ext b
    rw [List.coe_toFinset, Set.mem_ofPred_eq, Set.mem_ofPred_eq,
      Pool.mem_available hi.layout hi.settled]
    refine exists_congr fun s => ?_
    rw [hg.isSlab_iff hi]
    constructor
    · rintro ⟨⟨σ, hσ⟩, hk, hb, hu⟩
      rw [(hg.rep.pool.header s σ hσ).order] at hk
      subst hk
      rw [Good.inUse_iff hi hext hσ hb, not_not] at hu
      exact ⟨σ, hσ, rfl, hu⟩
    · rintro ⟨σ, hσ, rfl, hb⟩
      have hbs := (hi.layout.slabs s σ hσ).blocks b hb
      refine ⟨⟨σ, hσ⟩, (hg.rep.pool.header s σ hσ).order, hbs, ?_⟩
      rw [Good.inUse_iff hi hext hσ hbs, not_not]
      exact hb
  rw [hset, Set.ncard_coe_finset, List.toFinset_card_of_nodup (Pool.nodup_available hi.layout hi.settled)]

/-- Counting all containers, with enough fuel for each of them. -/
lemma Good.counts (hg : Good img S h) (hi : Heap.Inv S.kernel.slabPoolG h pages) {l : List ℕ}
    (hl : ∀ k ∈ l, 6 ≤ k ∧ k ≤ 11) : ∃ n, ∀ fuel, n ≤ fuel →
      (l.mapM fun k => S.kernel.containerFreeBlockCount fuel (S.kernel.slabContainer k)) =
        some (l.map fun k => (h.pool.available k).length) := by
  induction l with
  | nil => exact ⟨0, fun fuel _ => rfl⟩
  | cons k l ih =>
    obtain ⟨n, hn⟩ := ih fun j hj => hl j (List.mem_cons_of_mem _ hj)
    obtain ⟨h6, h11⟩ := hl k List.mem_cons_self
    refine ⟨max n ((h.pool.container k).partials.length + 1), fun fuel hf => ?_⟩
    obtain ⟨m, rfl⟩ := Nat.exists_eq_add_of_le ((le_max_right _ _).trans hf)
    rw [List.mapM_cons, hg.containerFreeBlockCount hi h6 h11 m, hn _ ((le_max_left _ _).trans hf)]
    rfl

/-- In a reached state the slabs are consistent. -/
lemma Good.slabsConsistent (hg : Good img S h) : SlabsConsistent S := by
  obtain ⟨pages, hi, hext⟩ := hg.held
  refine ⟨fun s hs => ?_, fun k h6 h11 => ⟨_, hg.containerState hi h6 h11⟩, ?_⟩
  · obtain ⟨σ, hσ⟩ := (hg.isSlab_iff hi).1 hs
    have hw := hi.layout.slabs s σ hσ
    exact ⟨σ.order, hw.order_ge, hw.order_le, hg.slabAt hi hext hσ⟩
  · obtain ⟨n, hn⟩ := hg.counts hi (l := List.range' minSlabBlockOrder 6) fun k hk => by
      rw [List.mem_range'_1] at hk
      simp only [minSlabBlockOrder] at hk
      omega
    refine ⟨n, fun fuel hf => (hn fuel hf).trans ?_⟩
    congr 1
    exact List.map_congr_left fun k _ => (hg.ncard_available hi hext k).symm

/-- In every state between two calls the allocator's data describe its slabs. -/
theorem slabs_consistent (img : Image) (m : Mem) (ha : HasAlignedPage (initRegion img.imgEnd)) :
    ∃ K, boot img m = .ok K ∧ ∀ ops os S, machine.Run (.start K) ops os S → SlabsConsistent S := by
  obtain ⟨K, h, e, hg, -⟩ := boot_good img m ha
  refine ⟨K, e, fun ops os S r => ?_⟩
  obtain ⟨h', -, hg'⟩ := hg.run r
  exact hg'.slabsConsistent

/-- The slab of two blocks in use. -/
theorem slabs_consistent_five_mb : ∃ K p q S, boot imageFiveMb (fun _ => 0) = .ok K ∧
    machine.Run (.start K) [.kmalloc 2048, .kmalloc 2048] [some p, some q] S ∧
    S.InUse p ∧ S.InUse q ∧ SlabsConsistent S := by
  obtain ⟨K, p, q, S₁, S, h, s, l, t⟩ := two_blocks
  obtain ⟨K', e, hr⟩ := slabs_consistent imageFiveMb (fun _ => 0) imageFiveMb_aligned
  obtain rfl : K' = K := Except.ok.inj (e.symm.trans t.boot)
  have hq : (⟨q, 2048, .kmalloc⟩ : Alloc) ∈ S.live := t.live ▸ List.mem_cons_self
  have hp : (⟨p, 2048, .kmalloc⟩ : Alloc) ∈ S.live := t.live ▸ List.mem_cons_of_mem _ List.mem_cons_self
  exact ⟨K', p, q, S, e, t.run, ⟨_, hp, t.valid₁, rfl⟩, ⟨_, hq, t.valid, rfl⟩, hr _ _ _ t.run⟩

end KingdoKernel.Kmalloc
