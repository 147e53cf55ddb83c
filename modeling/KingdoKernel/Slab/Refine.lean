import KingdoKernel.Slab.Heap
import KingdoKernel.Slab.Memory

/-!
# The slab allocator refines the abstract heap

`Kernel.Rep K h` says that the kernel `K` represents the heap `h`: they have the same buddy allocator,
and the memory of `K` represents the pool of `h`. Every function of `mm/slab.c` does to a kernel what
its counterpart does to the heap, and writes only to bytes that the pool owns; `slabAlloc_refines` and
`slabFree_refines` are the statements for the whole calls. Their results therefore depend on the
represented heap alone.
-/

namespace KingdoKernel
open Slab ListHead Tiles

namespace Slab

/-! ## Formatting a slab -/

/-- The loop that links the blocks of a new slab. -/
lemma linkBlocks_spec {m : Mem} {s k j n : ℕ} (hk : 3 ≤ k) (hs : s ≠ 0)
    (hlt : s + (j + n) * 2 ^ k < 2 ^ 64) :
    ∃ m1, Kernel.linkBlocks m k (s + j * 2 ^ k) (s + (j + n) * 2 ^ k) =
        (s + (j + n) * 2 ^ k, m1) ∧
      (m1.store (s + (j + n) * 2 ^ k) 8 0).Chain (s + j * 2 ^ k)
        ((List.range' j (n + 1)).map fun i => s + i * 2 ^ k) ∧
      ∀ x, (x < s + j * 2 ^ k ∨ s + (j + n) * 2 ^ k + 8 ≤ x) →
        m1.store (s + (j + n) * 2 ^ k) 8 0 x = m x := by
  have hge : 8 ≤ 2 ^ k := Nat.pow_le_pow_right (n := 2) (i := 3) (by norm_num) hk
  induction n generalizing j m with
  | zero =>
    refine ⟨m, ?_, ⟨rfl, show s + j * 2 ^ k ≠ 0 by omega, ?_⟩, fun x hx => ?_⟩
    · rw [Kernel.linkBlocks, if_neg (by simp)]
      rfl
    · simp only [Nat.add_zero]
      rw [Mem.load_store]
      rfl
    · exact Mem.store_of_not_mem (by omega)
  | succ n ih =>
    have e : j + (n + 1) = j + 1 + n := by omega
    have hstep : s + j * 2 ^ k + 2 ^ k = s + (j + 1) * 2 ^ k := by ring
    have hle : s + (j + 1) * 2 ^ k ≤ s + (j + 1 + n) * 2 ^ k :=
      Nat.add_le_add_left (Nat.mul_le_mul_right _ (by omega)) s
    rw [e] at hlt ⊢
    obtain ⟨m1, e1, hc, hm⟩ := ih (j := j + 1)
      (m := m.store (s + j * 2 ^ k) 8 (s + (j + 1) * 2 ^ k)) hlt
    refine ⟨m1, ?_, ?_, fun x hx => ?_⟩
    · rw [Kernel.linkBlocks, if_pos (by omega)]
      simp only [slabOrderToSize, hstep]
      exact e1
    · rw [List.range'_succ]
      refine ⟨rfl, show s + j * 2 ^ k ≠ 0 by omega, ?_⟩
      show Mem.Chain _ (Mem.load _ (s + j * 2 ^ k) 8) _
      rw [Mem.load_congr (m := m.store (s + j * 2 ^ k) 8 (s + (j + 1) * 2 ^ k))
        fun x h1 h2 => hm x (by omega), Mem.load_store_of_lt (by norm_num at hlt ⊢; omega)]
      exact hc
    · rw [hm x (by omega), Mem.store_of_not_mem (by omega)]

/-- `x - 1` without an underflow. -/
lemma predWord32_of_pos {x : ℕ} (h0 : 0 < x) (h : x < 2 ^ 32) : predWord32 x = x - 1 := by
  simp only [predWord32]
  omega

/-- `x + 1` without an overflow. -/
lemma succWord32_of_lt {x : ℕ} (h : x + 1 < 2 ^ 32) : succWord32 x = x + 1 := by
  simp only [succWord32]
  omega

/-- The size of the blocks of an order. -/
lemma slabOrderToSize_eq (k : ℕ) : slabOrderToSize k = 2 ^ k := rfl

/-- The number of blocks of a slab, its header included. -/
lemma slabSize_div {k : ℕ} (hk : k ≤ 17) : slabSize / slabOrderToSize k = 2 ^ (17 - k) :=
  Nat.pow_div hk (by norm_num)

/-- The number of blocks is a 32-bit number. -/
lemma two_pow_sub_lt (k : ℕ) : 2 ^ (17 - k) < 2 ^ 32 :=
  Nat.pow_lt_pow_right (by norm_num) (by omega)

/-- All blocks of a slab are chained. -/
lemma chainBlocks_spec {m : Mem} {s k : ℕ} (h6 : 6 ≤ k) (h11 : k ≤ 11) (hs : s ≠ 0)
    (hlt : s + 2 ^ 17 ≤ 2 ^ 64) :
    (Kernel.chainBlocks m k (s + 2 ^ k) (s + slabSize - 2 ^ k)).Chain (s + 2 ^ k) (blocks s k) ∧
    ∀ x, (x < s + 2 ^ k ∨ s + 2 ^ 17 ≤ x) →
      Kernel.chainBlocks m k (s + 2 ^ k) (s + slabSize - 2 ^ k) x = m x := by
  have hge := two_pow_order_ge h6
  have hge' := two_pow_sub_ge h11
  have hmul : 2 ^ (17 - k) * 2 ^ k = 2 ^ 17 := by rw [← pow_add, Nat.sub_add_cancel (by omega)]
  obtain ⟨n, hn⟩ : ∃ n, 1 + n + 1 = 2 ^ (17 - k) := ⟨2 ^ (17 - k) - 2, by omega⟩
  have hlast : s + slabSize - 2 ^ k = s + (1 + n) * 2 ^ k := by
    rw [← hn, Nat.succ_mul] at hmul
    rw [slabSize, ← hmul, ← Nat.add_assoc, Nat.add_sub_cancel]
  have hend : s + (1 + n) * 2 ^ k + 2 ^ k = s + 2 ^ 17 := by
    rw [← hn, Nat.succ_mul] at hmul
    rw [Nat.add_assoc, hmul]
  obtain ⟨m1, e, hchain, hkeep⟩ := linkBlocks_spec (m := m) (s := s) (k := k) (j := 1) (n := n)
    (by omega) hs (by omega)
  rw [one_mul] at e hchain hkeep
  have hb : (List.range' 1 (n + 1)).map (fun i => s + i * 2 ^ k) = blocks s k := by
    rw [blocks, ← hn, Nat.add_sub_cancel, Nat.add_comm n 1]
  rw [hb] at hchain
  rw [hlast, Kernel.chainBlocks, e]
  exact ⟨hchain, fun x hx => hkeep x (by omega)⟩

/-- `alloc_slab_from_buddy` writes the header of the slab, chains all its blocks and makes it current. -/
lemma formatSlab_spec {m : Mem} {base s k : ℕ} (hw : Header.WF base s ⟨k, blocks s k⟩) :
    HeaderAt (Kernel.formatSlab m (containerAt base k) k s) s ⟨k, blocks s k⟩ ∧
    (Kernel.formatSlab m (containerAt base k) k s).load (containerAt base k) 8 = s ∧
    ∀ x, (x < s ∨ s + 2 ^ 17 ≤ x) → (x < containerAt base k ∨ containerAt base k + 8 ≤ x) →
      Kernel.formatSlab m (containerAt base k) k s x = m x := by
  have h6 : 6 ≤ k := hw.order_ge
  have h11 : k ≤ 11 := hw.order_le
  have hc := containerAt_bounds base h6 h11
  have hab := hw.above
  have hbe := hw.below
  have hge := two_pow_order_ge h6
  have hle : 2 ^ k ≤ 2 ^ 11 := Nat.pow_le_pow_right (by norm_num) h11
  have hge' := two_pow_sub_ge h11
  have hlt' := two_pow_sub_lt k
  have hpred := predWord32_of_pos (show 0 < 2 ^ (17 - k) by omega) hlt'
  -- the stores before the loop
  obtain ⟨m2, hm2⟩ : ∃ x : Mem, x = (m.store s 4 k).store (s + 36) 4 (2 ^ (17 - k)) := ⟨_, rfl⟩
  have hl2 : m2.load (s + 36) 4 = 2 ^ (17 - k) := by
    rw [hm2, Mem.load_store_of_lt (by norm_num; omega)]
  obtain ⟨m4, hm4⟩ : ∃ x : Mem,
      x = (m2.store (s + 32) 4 (2 ^ (17 - k) - 1)).store (containerAt base k) 8 s := ⟨_, rfl⟩
  have hl4 : m4.load (containerAt base k) 8 = s := by
    rw [hm4, Mem.load_store_of_lt (by norm_num; omega)]
  obtain ⟨m5, hm5⟩ : ∃ x : Mem, x = m4.store (s + 8) 8 (s + 2 ^ k) := ⟨_, rfl⟩
  obtain ⟨hchain, hkeep⟩ := chainBlocks_spec (m := m5) h6 h11 (show s ≠ 0 by omega) hbe
  have hcounts : Kernel.writeCounts m k s = m2.store (s + 32) 4 (2 ^ (17 - k) - 1) := by
    rw [Kernel.writeCounts, slabSize_div (by omega), ← hm2, hl2, hpred]
  have hfmt : Kernel.formatSlab m (containerAt base k) k s =
      Kernel.chainBlocks m5 k (s + 2 ^ k) (s + slabSize - 2 ^ k) := by
    rw [Kernel.formatSlab, hcounts, ← hm4, hl4, slabOrderToSize_eq, ← hm5]
  obtain ⟨m6, hm6⟩ : ∃ x : Mem, x = Kernel.chainBlocks m5 k (s + 2 ^ k) (s + slabSize - 2 ^ k) :=
    ⟨_, rfl⟩
  rw [hfmt, ← hm6]
  rw [← hm6] at hchain hkeep
  -- the header is below the first block
  have hload : ∀ a n, a + n ≤ s + 2 ^ k → m6.load a n = m5.load a n :=
    fun a n h => Mem.load_congr fun x _ h2 => hkeep x (by omega)
  refine ⟨⟨?_, ?_, ?_, ?_⟩, ?_, fun x h1 h2 => ?_⟩
  · rw [hload _ _ (by omega), hm5, Mem.load_store_of_disjoint (by omega), hm4,
      Mem.load_store_of_disjoint (by omega), Mem.load_store_of_disjoint (by omega), hm2,
      Mem.load_store_of_disjoint (by omega), Mem.load_store_of_lt (by norm_num; omega)]
  · rw [hload _ _ (by omega), hm5, Mem.load_store_of_lt (by norm_num; omega)]
    exact hchain
  · rw [hload _ _ (by omega), hm5, Mem.load_store_of_disjoint (by omega), hm4,
      Mem.load_store_of_disjoint (by omega), Mem.load_store_of_lt (by norm_num; omega), length_blocks]
  · rw [hload _ _ (by omega), hm5, Mem.load_store_of_disjoint (by omega), hm4,
      Mem.load_store_of_disjoint (by omega), Mem.load_store_of_disjoint (by omega), hl2]
  · rw [hload _ _ (by omega), hm5, Mem.load_store_of_disjoint (by omega), hl4]
  · rw [hkeep x (by omega), hm5, Mem.store_of_not_mem (by omega), hm4, Mem.store_of_not_mem (by omega),
      Mem.store_of_not_mem (by omega), hm2, Mem.store_of_not_mem (by omega),
      Mem.store_of_not_mem (by omega)]

end Slab

namespace Kernel

/-- Where the container of an order is. -/
lemma slabContainer_eq (K : Kernel) (k : ℕ) : K.slabContainer k = containerAt K.slabPoolG k := rfl

/-- The kernel represents the heap. -/
structure Rep (K : Kernel) (h : Heap) : Prop where
  buddy : K.buddy = h.buddy
  pool : PoolAt K.mem K.slabPoolG h.pool

/-- A part of a call that writes to bytes in `W` only. -/
structure Writes (K : Kernel) (W : ℕ → Prop) (K' : Kernel) : Prop where
  slabPoolG : K'.slabPoolG = K.slabPoolG
  releases : K'.releases = K.releases
  mem : ∀ x, ¬ W x → K'.mem x = K.mem x

/-- Nothing is written. -/
lemma Writes.refl (K : Kernel) (W : ℕ → Prop) : Writes K W K := ⟨rfl, rfl, fun _ _ => rfl⟩

/-- Writes one after the other. -/
lemma Writes.trans {K K' K'' : Kernel} {V W : ℕ → Prop} (h : Writes K V K') (h' : Writes K' W K'')
    (hVW : ∀ x, V x → W x) : Writes K W K'' :=
  ⟨h'.slabPoolG.trans h.slabPoolG, h'.releases.trans h.releases,
    fun x hx => (h'.mem x hx).trans (h.mem x fun hv => hx (hVW x hv))⟩

/-- Writes within a larger range. -/
lemma Writes.mono {K K' : Kernel} {V W : ℕ → Prop} (h : Writes K V K') (hVW : ∀ x, V x → W x) :
    Writes K W K' :=
  ⟨h.slabPoolG, h.releases, fun x hx => h.mem x fun hv => hx (hVW x hv)⟩

/-- Writes do not move the containers. -/
lemma Writes.slabContainer {K K' : Kernel} {W : ℕ → Prop} (h : Writes K W K') (k : ℕ) :
    K'.slabContainer k = K.slabContainer k := by
  rw [slabContainer_eq, slabContainer_eq, h.slabPoolG]

/-- A new memory that differs in the range only. -/
lemma Writes.withMem {K : Kernel} {W : ℕ → Prop} {m : Mem} (hm : ∀ x, ¬ W x → m x = K.mem x) :
    Writes K W (K.withMem m) :=
  ⟨rfl, rfl, hm⟩

/-- A change of the buddy allocator writes nothing. -/
lemma Writes.withBuddy {K K' : Kernel} {W : ℕ → Prop} {b : Buddy} (h : Writes K W K') :
    Writes K W (K'.withBuddy b) :=
  ⟨h.slabPoolG, h.releases, h.mem⟩

variable {K : Kernel} {h h' : Heap} {pages : Set Block} {k s b : ℕ}

/-- A change of memory represents a change of the pool. -/
lemma Rep.withMem (hr : K.Rep h) {m : Mem} {Q : Pool} (hm : PoolAt m K.slabPoolG Q) :
    (K.withMem m).Rep ⟨h.buddy, Q⟩ :=
  ⟨hr.buddy, hm⟩

/-- The slabs in memory do not depend on the buddy allocator. -/
lemma Rep.withBuddy {P : Pool} (hp : PoolAt K.mem K.slabPoolG P) (b : Buddy) :
    (K.withBuddy b).Rep ⟨b, P⟩ :=
  ⟨rfl, hp⟩

/-- `alloc_slab_from_buddy` when the buddy allocator has no chunk. -/
lemma allocSlabFromBuddy_none (e : K.buddy.buddyGetPages slabPageOrder = .ok (none, K.buddy)) :
    K.allocSlabFromBuddy k = .ok (-enomem, K) := by
  rw [allocSlabFromBuddy, e]
  rfl

/-- `alloc_slab_from_buddy` when it has one. -/
lemma allocSlabFromBuddy_some (hr : K.Rep h) (hl : h.pool.Layout K.slabPoolG) {b' : Buddy}
    (e : Heap.Carves K.buddy s b') (hs : h.pool.slab s = none)
    (hw : Header.WF K.slabPoolG s ⟨k, blocks s k⟩) :
    ∃ K', K.allocSlabFromBuddy k = .ok (0, K') ∧ K'.Rep ⟨b', h.pool.add k s⟩ ∧
      Writes K ((h.pool.add k s).Owns K.slabPoolG) K' := by
  obtain ⟨page, b1, e1, hp, e2⟩ := e
  obtain ⟨hh, hc, hm⟩ := formatSlab_spec (m := K.mem) hw
  have hb := containerAt_bounds K.slabPoolG (k := k) hw.order_ge hw.order_le
  obtain ⟨m', hm'⟩ : ∃ x : Mem, x = formatSlab K.mem (containerAt K.slabPoolG k) k s := ⟨_, rfl⟩
  rw [← hm'] at hh hc hm
  refine ⟨(K.withMem m').withBuddy b', ?_, Rep.withBuddy ?_ _,
    (Writes.withMem fun x hx => ?_).withBuddy⟩
  · rw [allocSlabFromBuddy, e1]
    simp only [ok_bind, hp, e2, pure_eq_ok, slabContainer_eq, ← hm']
  · exact hr.pool.add hl hw.order_ge hw.order_le hs hw hh hc hm
  · refine hm x ?_ ?_
    · by_contra hin
      exact hx (Pool.owns_add_slab (hw.order_le.trans (by norm_num)) (by omega) (by omega))
    · by_contra hin
      exact hx (.inl ⟨by omega, by omega⟩)

/-- `slab_get_free_block`. -/
lemma slabGetFreeBlock_refines (hr : K.Rep h) (hl : h.pool.Layout K.slabPoolG) {l : List ℕ}
    (hs : h.pool.slab s = some ⟨k, b :: l⟩) :
    ∃ K', K.slabGetFreeBlock s = .ok (b, K') ∧ K'.Rep ⟨h.buddy, h.pool.setFree k s l⟩ ∧
      Writes K ((h.pool.setFree k s l).Owns K.slabPoolG) K' := by
  have hw := hl.slabs s _ hs
  have hh := hr.pool.header s _ hs
  have hge := two_pow_order_ge hw.order_ge
  have hlen := hw.length_free
  have hlt := two_pow_sub_lt k
  have hbd := hw.bounds (hw.blocks b List.mem_cons_self)
  have hbe := hw.below
  have hcount : K.mem.load (s + 32) 4 = l.length + 1 := hh.count
  obtain ⟨hnext, hb0, hchain⟩ := hh.chain
  simp only [List.length_cons] at hlen hge hbd
  -- the memory after both stores
  obtain ⟨m1, hm1⟩ : ∃ x : Mem, x = K.mem.store (s + 32) 4 l.length := ⟨_, rfl⟩
  have hlink : m1.load b 8 = K.mem.load b 8 := by
    rw [hm1, Mem.load_store_of_disjoint (by omega)]
  obtain ⟨m2, hm2⟩ : ∃ x : Mem, x = m1.store (s + 8) 8 (K.mem.load b 8) := ⟨_, rfl⟩
  have hlb : K.mem.load b 8 < 256 ^ 8 := Mem.load_lt _ _ _
  have hout : ∀ x, (x < s + 8 ∨ (s + 16 ≤ x ∧ x < s + 32) ∨ s + 36 ≤ x) → m2 x = K.mem x := by
    intro x hx
    rw [hm2, Mem.store_of_not_mem (by omega), hm1, Mem.store_of_not_mem (by omega)]
  have hh' : HeaderAt m2 s ⟨k, l⟩ := by
    refine ⟨?_, ?_, ?_, ?_⟩
    · rw [Mem.load_congr fun x h1 h2 => hout x (by omega)]
      exact hh.order
    · rw [hm2, Mem.load_store_of_lt hlb, ← hm2]
      refine hchain.congr fun c hc => Mem.load_congr fun x h1 h2 => hout x ?_
      have := hw.bounds (hw.blocks c (List.mem_cons_of_mem _ hc))
      simp only [] at this
      omega
    · rw [hm2, Mem.load_store_of_disjoint (by omega), hm1,
        Mem.load_store_of_lt (by norm_num; omega)]
    · rw [Mem.load_congr fun x h1 h2 => hout x (by omega)]
      exact hh.total
  refine ⟨K.withMem m2, ?_, hr.withMem ?_, Writes.withMem fun x hx => ?_⟩
  · have hpred : predWord32 (l.length + 1) = l.length := by
      rw [predWord32_of_pos (by omega) (by omega), Nat.add_sub_cancel]
    rw [slabGetFreeBlock, if_neg (by omega), if_neg (by omega)]
    simp only [hcount, hpred, hnext, ← hm1, hlink, ← hm2]
  · exact hr.pool.setFree hl hs hh' fun x hx => hout x (by omega)
  · refine hout x ?_
    by_contra hin
    have hself : (h.pool.setFree k s l).slab s = some ⟨k, l⟩ := by rw [Pool.slab_setFree, if_pos rfl]
    exact hx (Pool.owns_header (k := k) hself rfl (by omega) (by omega))

/-- `get_from_partial_list`. -/
lemma getFromPartialList_nil (hr : K.Rep h) (h6 : 6 ≤ k) (h11 : k ≤ 11)
    (hp : (h.pool.container k).partials = []) : K.getFromPartialList (K.slabContainer k) = (0, K) := by
  have hring := hr.pool.ring k h6 h11
  rw [hp] at hring
  rw [slabContainer_eq, getFromPartialList, if_pos ((listEmpty_ring _ hring).2 rfl)]

/-- `get_from_partial_list` takes the first partial slab out. -/
lemma getFromPartialList_cons (hr : K.Rep h) (hl : h.pool.Layout K.slabPoolG) (h6 : 6 ≤ k)
    (h11 : k ≤ 11) {ts : List ℕ} (hp : (h.pool.container k).partials = s :: ts) :
    ∃ K', K.getFromPartialList (K.slabContainer k) = (s, K') ∧
      K'.Rep ⟨h.buddy, h.pool.setContainer k ⟨(h.pool.container k).current, ts⟩⟩ ∧
      Writes K (h.pool.Owns K.slabPoolG) K' := by
  have hring := hr.pool.ring k h6 h11
  rw [hp, List.map_cons] at hring
  have hnext := (List.isChain_cons_cons.1 hring.linked).1.1
  obtain ⟨hpool, hmem⟩ := hr.pool.unlink hl h6 h11 (A := []) hp
  refine ⟨K.withMem (listDel memLinks K.mem (s + 16)), ?_, hr.withMem hpool, Writes.withMem hmem⟩
  have hemp : ¬ listEmpty memLinks K.mem (containerAt K.slabPoolG k + 8) = true :=
    fun e => List.cons_ne_nil _ _ ((listEmpty_ring _ hring).1 e)
  rw [slabContainer_eq, getFromPartialList, if_neg hemp]
  simp only [hnext, Nat.add_sub_cancel]

/-- `sc->current = v`. -/
lemma setCurrent_refines (hr : K.Rep h) (hl : h.pool.Layout K.slabPoolG) (h6 : 6 ≤ k) (h11 : k ≤ 11)
    {c : Option ℕ} {v : ℕ} (hv : c.getD 0 = v) (hlt : v < 2 ^ 64) :
    (K.setCurrent (K.slabContainer k) v).Rep
      ⟨h.buddy, h.pool.setContainer k ⟨c, (h.pool.container k).partials⟩⟩ ∧
    Writes K (h.pool.Owns K.slabPoolG) (K.setCurrent (K.slabContainer k) v) := by
  subst hv
  rw [slabContainer_eq]
  refine ⟨hr.withMem (hr.pool.setCurrent hl h6 h11 hlt), Writes.withMem fun x hx => ?_⟩
  refine Mem.store_of_not_mem ?_
  by_contra hin
  have hb := containerAt_bounds K.slabPoolG h6 h11
  exact hx (.inl ⟨by omega, by omega⟩)

/-- The word `current` of a container. -/
lemma current_refines (hr : K.Rep h) (h6 : 6 ≤ k) (h11 : k ≤ 11) :
    K.current (K.slabContainer k) = (h.pool.container k).current.getD 0 :=
  hr.pool.current k h6 h11

/-- A slab of the pool is not at `NULL` and its address is a word. -/
lemma slab_address {base : ℕ} {P : Pool} (hl : P.Layout base) {σ : Header} (hs : P.slab s = some σ) :
    s ≠ 0 ∧ s < 2 ^ 64 := by
  have hab := (hl.slabs s σ hs).above
  have hbe := (hl.slabs s σ hs).below
  omega

/-- `sc->current = get_from_partial_list(sc)`. -/
lemma advance_refines (hr : K.Rep h) (hl : h.pool.Layout K.slabPoolG) (h6 : 6 ≤ k) (h11 : k ≤ 11) :
    ∃ v K1 K2, K.getFromPartialList (K.slabContainer k) = (v, K1) ∧
      v = (h.pool.container k).partials.head?.getD 0 ∧
      K1.setCurrent (K.slabContainer k) v = K2 ∧ K2.Rep ⟨h.buddy, h.pool.advance k⟩ ∧
      Writes K (h.pool.Owns K.slabPoolG) K2 ∧ K2.current (K.slabContainer k) = v := by
  -- what is left to do once the first partial slab has been unlinked
  have hset : ∀ {v K1 c ts}, K1.Rep ⟨h.buddy, h.pool.setContainer k ⟨c, ts⟩⟩ →
      (h.pool.setContainer k ⟨c, ts⟩).Layout K.slabPoolG → Writes K (h.pool.Owns K.slabPoolG) K1 →
      (h.pool.container k).partials.head?.getD 0 = v → v < 2 ^ 64 →
      ts = (h.pool.container k).partials.tail →
      (K1.setCurrent (K.slabContainer k) v).Rep ⟨h.buddy, h.pool.advance k⟩ ∧
      Writes K (h.pool.Owns K.slabPoolG) (K1.setCurrent (K.slabContainer k) v) ∧
      (K1.setCurrent (K.slabContainer k) v).current (K.slabContainer k) = v := by
    intro v K1 c ts hr1 hl1 hw1 hv hlt hts
    rw [← hw1.slabPoolG] at hl1
    obtain ⟨hr2, hw2⟩ := setCurrent_refines hr1 hl1 h6 h11 hv hlt
    have hpool : (h.pool.setContainer k ⟨c, ts⟩).setContainer k
        ⟨(h.pool.container k).partials.head?, ((h.pool.setContainer k ⟨c, ts⟩).container k).partials⟩ =
        h.pool.advance k := by
      rw [Pool.setContainer_setContainer, Pool.container_setContainer, if_pos rfl, Pool.advance, hts]
    rw [hpool] at hr2
    have hcur := current_refines hr2 h6 h11
    rw [Pool.container_advance, if_pos rfl, hv] at hcur
    rw [hw2.slabContainer, hw1.slabContainer] at hcur
    rw [hw1.slabContainer] at hr2 hw2
    rw [hw1.slabPoolG] at hw2
    exact ⟨hr2, hw1.trans hw2 fun _ hx => hx, hcur⟩
  cases hp : (h.pool.container k).partials with
  | nil =>
    have e1 := getFromPartialList_nil hr h6 h11 hp
    have hself : h.pool.setContainer k ⟨(h.pool.container k).current, []⟩ = h.pool :=
      Pool.setContainer_self (by rw [← hp])
    obtain ⟨hr2, hw2, hcur⟩ := @hset 0 K (h.pool.container k).current []
      (by rw [hself]; exact hr) (by rw [hself]; exact hl) (Writes.refl _ _) (by rw [hp]; rfl)
      (by norm_num) (by rw [hp]; rfl)
    exact ⟨0, K, _, e1, rfl, rfl, hr2, hw2, hcur⟩
  | cons t ts =>
    obtain ⟨K1, e1, hr1, hw1⟩ := getFromPartialList_cons hr hl h6 h11 hp
    obtain ⟨τ, hτ, -⟩ := hl.partials k t (by rw [hp]; exact List.mem_cons_self)
    have hnd := hl.nodup k
    rw [hp] at hnd
    have hl1 : (h.pool.setContainer k ⟨(h.pool.container k).current, ts⟩).Layout K.slabPoolG := by
      refine hl.setContainer (hl.current k) (fun u hu => hl.partials k u ?_) (List.nodup_cons.1 hnd).2
      rw [hp]
      exact List.mem_cons_of_mem _ hu
    obtain ⟨hr2, hw2, hcur⟩ := hset (v := t) hr1 hl1 hw1 (by rw [hp]; rfl) (slab_address hl hτ).2
      (by rw [hp]; rfl)
    exact ⟨t, K1, _, e1, rfl, rfl, hr2, hw2, hcur⟩

/-- `set_new_current_slab`. -/
lemma setNewCurrentSlab_refines (hr : K.Rep h) (hc : Heap.Core K.slabPoolG h pages) (h6 : 6 ≤ k)
    (h11 : k ≤ 11) (e : h.refill k = .ok h') :
    ∃ K', K.setNewCurrentSlab (K.slabContainer k) k = .ok K' ∧ K'.Rep h' ∧
      Writes K (h'.pool.Owns K.slabPoolG) K' := by
  obtain ⟨v, K1, K2, e1, hv, e2, hr2, hw2, hcur⟩ := advance_refines hr hc.layout h6 h11
  unfold Heap.refill at e
  cases hp : (h.pool.container k).partials with
  | cons t ts =>
    rw [hp] at e hv
    cases e
    obtain ⟨τ, hτ, -⟩ := hc.layout.partials k t (by rw [hp]; exact List.mem_cons_self)
    have hne : K2.current (K.slabContainer k) ≠ 0 := by
      rw [hcur, hv]
      exact (slab_address hc.layout hτ).1
    refine ⟨K2, ?_, hr2, hw2⟩
    rw [setNewCurrentSlab, e1]
    simp only [e2]
    exact if_neg hne
  | nil =>
    rw [hp] at e hv
    have hv0 : v = 0 := hv
    rw [hv0] at hcur
    have hadv := hc.advance (k := k)
    have hadv2 : (h.pool.advance k).Layout K2.slabPoolG := by
      rw [hw2.slabPoolG]
      exact hadv.layout
    have hb2 : K2.buddy = h.buddy := hr2.buddy
    have hstart : K.setNewCurrentSlab (K.slabContainer k) k = (do
        let r ← K2.allocSlabFromBuddy k
        if r.1 ≠ 0 then pure (r.2.setCurrent (K.slabContainer k) 0) else pure r.2) := by
      rw [setNewCurrentSlab, e1]
      simp only [e2]
      exact if_pos hcur
    rcases Heap.grow_spec hadv h6 h11 with ⟨eg, -⟩ | ⟨s2, b2, eg, hfresh, hcore2, -, hwf, -⟩
    · simp only [Heap.grow_none eg, ok_bind, pure_eq_ok, Except.ok.injEq] at e
      subst e
      have ealloc := allocSlabFromBuddy_none (K := K2) (k := k) (by rw [hb2]; exact eg)
      -- the current slab is `NULL` already
      obtain ⟨hr3, hw3⟩ := setCurrent_refines (c := none) hr2 hadv2 h6 h11 rfl (by norm_num)
      have hcont : (h.pool.advance k).container k = ⟨none, ((h.pool.advance k).container k).partials⟩ := by
        rw [Pool.container_advance, if_pos rfl, hp]
        rfl
      simp only [Pool.setContainer_self hcont] at hr3
      rw [hw2.slabContainer] at hr3
      rw [hw2.slabContainer, hw2.slabPoolG] at hw3
      refine ⟨_, ?_, hr3, hw2.trans hw3 fun _ hx => hx⟩
      rw [hstart, ealloc]
      rfl
    · simp only [eg.grow, ok_bind, pure_eq_ok, Except.ok.injEq] at e
      subst e
      obtain ⟨K3, e3, hr3, hw3⟩ := allocSlabFromBuddy_some (K := K2) (k := k) hr2 hadv2
        (by rw [hb2]; exact eg) hfresh (by rw [hw2.slabPoolG]; exact hwf)
      rw [hw2.slabPoolG] at hw3
      refine ⟨K3, ?_, hr3, hw2.trans hw3 fun x hx => Pool.owns_add hfresh hx⟩
      rw [hstart, e3]
      rfl

/-- The part of `__slab_alloc` after a current slab has been found; it does not write to the block. -/
lemma takeBlock_refines (hr : K.Rep h) (hi : Heap.Inv K.slabPoolG h pages) (h6 : 6 ≤ k) (h11 : k ≤ 11)
    (hcur : (h.pool.container k).current = some s) (e : h.take k s = .ok (b, h')) :
    ∃ K', K.takeBlock k = .ok (b, K') ∧ K'.Rep h' ∧ Writes K (h'.pool.Owns K.slabPoolG) K' := by
  obtain ⟨c, l, hs⟩ := hi.current_free hcur
  obtain ⟨K1, e1, hr1, hw1⟩ := slabGetFreeBlock_refines hr hi.layout hs
  have hc1 : K1.current (K.slabContainer k) = s := by
    rw [← hw1.slabContainer, current_refines hr1 h6 h11, Pool.setFree, Pool.container_setSlab, hcur]
    rfl
  have hh := hr1.pool.header s ⟨k, l⟩ (by rw [Pool.slab_setFree, if_pos rfl])
  have hstart : K.takeBlock k =
      if K1.mem.load (s + 32) 4 = 0 then
        if K1.mem.load (s + 8) 8 ≠ 0 then .error (.bugOn "sc->current->next_free_block != NULL")
        else do
          let K' ← K1.setNewCurrentSlab (K.slabContainer k) k
          pure (c, K')
      else .ok (c, K1) := by
    rw [takeBlock, current_refines hr h6 h11, hcur]
    simp only [Option.getD_some, e1, ok_bind, hc1, pure_eq_ok]
  rw [Heap.take, hs] at e
  simp only [] at e
  by_cases hl : l = []
  · subst hl
    rw [if_pos rfl] at e
    obtain ⟨h2, e2, e3⟩ := bind_eq_ok.1 e
    cases e3
    have hcore := hi.toCore.pop hs
    obtain ⟨K2, e4, hr2, hw2⟩ := setNewCurrentSlab_refines hr1 (by rw [hw1.slabPoolG]; exact hcore)
      h6 h11 e2
    rw [hw1.slabContainer] at e4
    rw [hw1.slabPoolG] at hw2
    refine ⟨K2, ?_, hr2, hw1.trans hw2 fun x hx => Heap.refill_owns hcore h6 h11 e2 hx⟩
    · have hcount : K1.mem.load (s + 32) 4 = 0 := hh.count
      have hnext : K1.mem.load (s + 8) 8 = 0 := hh.chain
      rw [hstart, if_pos hcount, if_neg (not_not.2 hnext), e4]
      rfl
  · rw [if_neg hl] at e
    cases e
    refine ⟨K1, ?_, hr1, hw1⟩
    have hcount : K1.mem.load (s + 32) 4 = l.length := hh.count
    have hpos := List.length_pos_iff.2 hl
    rw [hstart, if_neg (by omega)]

/-- The first block of a new slab still holds the link to the second one when it is handed out. -/
lemma takeBlock_fresh {P : Pool} {bud : Buddy} {K' : Kernel} (hr : K.Rep ⟨bud, P.add k s⟩)
    (hi : Heap.Inv K.slabPoolG ⟨bud, P.add k s⟩ pages) (h6 : 6 ≤ k) (h11 : k ≤ 11)
    (e : Heap.take ⟨bud, P.add k s⟩ k s = .ok (b, h')) (hw : Writes K (h'.pool.Owns K.slabPoolG) K') :
    b % 2 ^ 17 = 2 ^ k ∧ K'.mem.load b 8 = b + 2 ^ k := by
  have hcur : ((P.add k s).container k).current = some s := by rw [Pool.container_add, if_pos rfl]
  have hslab : (P.add k s).slab s = some ⟨k, blocks s k⟩ := by rw [Pool.slab_add, if_pos rfl]
  have hge := two_pow_order_ge h6
  have hle : 2 ^ k ≤ 2 ^ 11 := Nat.pow_le_pow_right (by norm_num) h11
  obtain ⟨l, hl⟩ := blocks_eq_cons_cons s (h11.trans (by norm_num))
  obtain ⟨c, h1, e1, hg⟩ := Heap.take_spec hi h6 h11 hcur
  rw [e] at e1
  cases e1
  have hb : b = s + 2 ^ k := Heap.take_fst (hl ▸ hslab) e
  have hchain := (hr.pool.header s _ hslab).chain
  rw [hl] at hchain
  obtain ⟨-, -, hlink, -⟩ := hchain
  have hlive : (⟨b, k⟩ : Block) ∈ h'.pool.live := hg.live ▸ Set.mem_insert _ _
  have hkeep : K'.mem.load b 8 = K.mem.load b 8 := by
    refine Mem.load_congr fun x hx1 hx2 => hw.mem x ?_
    exact hg.inv.layout.not_owns hlive ⟨hx1, by show x < b + 2 ^ k; omega⟩
  refine ⟨?_, ?_⟩
  · have hal := (hi.layout.slabs s _ hslab).aligned
    omega
  · rw [hkeep, hb, hlink]
    omega

/-- `__slab_alloc`. A block of the current slab is handed out as it is, one of a new slab with the link
to the next block in it. -/
lemma allocOrder_refines (hr : K.Rep h) (hi : Heap.Inv K.slabPoolG h pages) (h6 : 6 ≤ k)
    (h11 : k ≤ 11) (e : h.alloc k = .ok (b, h')) :
    ∃ K', K.__slabAlloc k = .ok (b, K') ∧ K'.Rep h' ∧
      Writes K (fun x => h'.pool.Owns K.slabPoolG x ∨
        ((h.pool.container k).current = none ∧ b ≤ x ∧ x < b + 2 ^ k)) K' ∧
      ((h.pool.container k).current = none → b ≠ 0 →
        b % 2 ^ 17 = 2 ^ k ∧ K'.mem.load b 8 = b + 2 ^ k) := by
  have hord : ¬ (k < minSlabBlockOrder ∨ maxSlabBlockOrder < k) := by
    simp only [minSlabBlockOrder, maxSlabBlockOrder]
    omega
  rw [__slabAlloc, if_neg hord, current_refines hr h6 h11]
  unfold Heap.alloc at e
  cases hcur : (h.pool.container k).current with
  | some s =>
    rw [hcur] at e
    obtain ⟨σ, hσ, -⟩ := hi.layout.current k s hcur
    have hne : (some s).getD 0 ≠ 0 := (slab_address hi.layout hσ).1
    rw [if_neg hne]
    obtain ⟨K', e', hr', hw⟩ := takeBlock_refines hr hi h6 h11 hcur e
    exact ⟨K', e', hr', hw.mono fun x hx => .inl hx, by rintro ⟨⟩⟩
  | none =>
    rw [hcur] at e
    rw [if_pos (show (none : Option ℕ).getD 0 = 0 from rfl)]
    rcases Heap.grow_spec hi.toCore h6 h11 with ⟨eg, -⟩ | ⟨s, b2, eg, hfresh, hcore, -, hwf, -⟩
    · simp only [Heap.grow_none eg, ok_bind, pure_eq_ok] at e
      cases e
      refine ⟨K, ?_, hr, Writes.refl _ _, fun _ h0 => absurd rfl h0⟩
      rw [allocSlabFromBuddy_none (by rw [hr.buddy]; exact eg)]
      rfl
    · simp only [eg.grow, ok_bind] at e
      obtain ⟨K1, e1, hr1, hw1⟩ := allocSlabFromBuddy_some (k := k) hr hi.layout
        (by rw [hr.buddy]; exact eg) hfresh hwf
      have hi1 : Heap.Inv K1.slabPoolG ⟨b2, h.pool.add k s⟩ pages := by
        rw [hw1.slabPoolG]
        exact ⟨hcore, hi.settled.add hi.layout h11 hfresh hcur⟩
      have hcur1 : ((h.pool.add k s).container k).current = some s := by
        rw [Pool.container_add, if_pos rfl]
      obtain ⟨K2, e2, hr2, hw2⟩ := takeBlock_refines hr1 hi1 h6 h11 hcur1 e
      have hfirst := takeBlock_fresh hr1 hi1 h6 h11 e hw2
      rw [hw1.slabPoolG] at hw2 hi1
      refine ⟨K2, ?_, hr2, hw1.trans (hw2.mono fun x hx => .inl hx) fun x hx => ?_, fun _ _ => hfirst⟩
      · simp only [e1, ok_bind]
        exact e2
      · exact (Heap.take_owns hi1 h6 h11 hcur1 e hx).imp_right fun hx => ⟨rfl, hx⟩

/-! ## Giving blocks back -/

/-- The block index that `slab_put_block` computes is that of the block. -/
lemma block_eq {base : ℕ} {σ : Header} (hw : σ.WF base s) (hb : b ∈ blocks s σ.order) :
    s + subWord b s / 2 ^ σ.order * 2 ^ σ.order = b := by
  have hbd := hw.bounds hb
  have hbe := hw.below
  have hpos : 0 < 2 ^ σ.order := by positivity
  rw [subWord_of_le (by omega) (by omega)]
  obtain ⟨i, -, -, rfl⟩ := mem_blocks.1 hb
  rw [Nat.add_sub_cancel_left, Nat.mul_div_cancel _ hpos]

/-- `slab_put_block`. -/
lemma slabPutBlock_refines (hr : K.Rep h) (hl : h.pool.Layout K.slabPoolG) {l : List ℕ}
    (hs : h.pool.slab s = some ⟨k, l⟩) (hb : b ∈ blocks s k) (hf : b ∉ l) :
    ∃ K', K.slabPutBlock s b = .ok K' ∧ K'.Rep ⟨h.buddy, h.pool.setFree k s (b :: l)⟩ ∧
      Writes K (fun x => h.pool.Owns K.slabPoolG x ∨ (b ≤ x ∧ x < b + 2 ^ k)) K' := by
  have hw := hl.slabs s _ hs
  have hh := hr.pool.header s _ hs
  have hge : 64 ≤ 2 ^ k := two_pow_order_ge hw.order_ge
  have hlen := hw.length_free
  have hlt := two_pow_sub_lt k
  have hbd := hw.bounds hb
  have hab := hw.above
  have hbe := hw.below
  have hidx := block_eq hw hb
  have hcount : K.mem.load (s + 32) 4 = l.length := hh.count
  have hord : K.mem.load s 4 = k := hh.order
  simp only [] at hlen hbd hidx
  have hlb : K.mem.load (s + 8) 8 < 256 ^ 8 := Mem.load_lt _ _ _
  -- the memory after each of the three stores
  obtain ⟨m1, hm1⟩ : ∃ x : Mem, x = K.mem.store b 8 (K.mem.load (s + 8) 8) := ⟨_, rfl⟩
  obtain ⟨m2, hm2⟩ : ∃ x : Mem, x = m1.store (s + 8) 8 b := ⟨_, rfl⟩
  have hc2 : m2.load (s + 32) 4 = l.length := by
    rw [hm2, Mem.load_store_of_disjoint (by omega), hm1, Mem.load_store_of_disjoint (by omega), hcount]
  obtain ⟨m3, hm3⟩ : ∃ x : Mem, x = m2.store (s + 32) 4 (l.length + 1) := ⟨_, rfl⟩
  have hout : ∀ x, (x < s + 8 ∨ (s + 16 ≤ x ∧ x < s + 32) ∨ (s + 36 ≤ x ∧ x < b) ∨ b + 8 ≤ x) →
      m3 x = K.mem x := by
    intro x hx
    rw [hm3, Mem.store_of_not_mem (by omega), hm2, Mem.store_of_not_mem (by omega), hm1,
      Mem.store_of_not_mem (by omega)]
  have hh' : HeaderAt m3 s ⟨k, b :: l⟩ := by
    refine ⟨?_, ⟨?_, ?_, ?_⟩, ?_, ?_⟩
    · rw [Mem.load_congr fun x h1 h2 => hout x (by omega)]
      exact hord
    · rw [hm3, Mem.load_store_of_disjoint (by omega), hm2, Mem.load_store_of_lt (by norm_num; omega)]
    · omega
    · have hnext : m3.load b 8 = K.mem.load (s + 8) 8 := by
        rw [hm3, Mem.load_store_of_disjoint (by omega), hm2, Mem.load_store_of_disjoint (by omega),
          hm1, Mem.load_store_of_lt hlb]
      rw [hnext]
      refine hh.chain.congr fun c hc => Mem.load_congr fun x h1 h2 => hout x ?_
      have hbd' := hw.bounds (hw.blocks c hc)
      have hap := apart_of_mem_blocks hb (hw.blocks c hc) fun e => hf (e ▸ hc)
      simp only [] at hbd' hap
      omega
    · rw [hm3, Mem.load_store_of_lt (by norm_num; omega)]
      rfl
    · rw [Mem.load_congr fun x h1 h2 => hout x (by omega)]
      exact hh.total
  refine ⟨K.withMem m3, ?_, hr.withMem ?_, Writes.withMem fun x hx => ?_⟩
  · rw [slabPutBlock, if_neg (by omega), if_neg (by omega)]
    simp only [hord, slabOrderToSize_eq, hidx, ← hm1, ← hm2, hc2, succWord32_of_lt
      (show l.length + 1 < 2 ^ 32 by omega), ← hm3]
  · exact hr.pool.setFree hl hs hh' fun x hx => hout x (by omega)
  · refine hout x ?_
    by_contra hin
    refine hx ?_
    by_cases hxb : b ≤ x ∧ x < b + 2 ^ k
    · exact .inr hxb
    · exact .inl (Pool.owns_header (k := k) hs rfl (by omega) (by omega))

/-- `put_slab_to_buddy`. -/
lemma putSlabToBuddy_refines {b' : Buddy} (e : Heap.Returns K.buddy s b')
    (hfull : K.mem.load (s + 32) 4 = predWord32 (K.mem.load (s + 36) 4)) :
    K.putSlabToBuddy s = .ok (0, ⟨b', K.mem, K.slabPoolG, ⟨s, K.mem⟩ :: K.releases⟩) := by
  obtain ⟨page, b1, e1, e2, e3⟩ := e
  rw [putSlabToBuddy, e1]
  simp only []
  rw [if_neg (not_not.2 hfull), releaseSlab, e2]
  simp only [ok_bind, e3, pure_eq_ok]

/-- A slab with some free blocks that is not current is in the partial list. -/
lemma mem_partials {P : Pool} (hset : P.Settled) {l : List ℕ} (hs : P.slab s = some ⟨k, l⟩)
    (hne : l ≠ []) (hcur : (P.container k).current ≠ some s) : s ∈ (P.container k).partials := by
  by_contra hp
  exact hne (hset.others s _ hs hcur hp)

/-- The end of `__slab_free`, after the chunk of a slab has been given back. -/
lemma unlinkSlab_refines (hr : K.Rep h) (hl : h.pool.Layout K.slabPoolG) (h6 : 6 ≤ k) (h11 : k ≤ 11)
    {σ : Header} (hs : h.pool.slab s = some σ)
    (hp : (h.pool.container k).current ≠ some s → s ∈ (h.pool.container k).partials) :
    (K.unlinkSlab s (K.slabContainer k)).Rep ⟨h.buddy, h.pool.detach k s⟩ ∧
      Writes K (h.pool.Owns K.slabPoolG) (K.unlinkSlab s (K.slabContainer k)) := by
  have hs0 := (slab_address hl hs).1
  have hcur := current_refines hr h6 h11
  by_cases hc : (h.pool.container k).current = some s
  · obtain ⟨v, K1, K2, e1, -, e2, hr2, hw2, -⟩ := advance_refines hr hl h6 h11
    have e : K.unlinkSlab s (K.slabContainer k) = K2 := by
      rw [unlinkSlab, if_pos (by rw [hcur, hc]; rfl), e1]
      exact e2
    rw [e, Pool.detach, if_pos hc]
    exact ⟨hr2, hw2⟩
  · have hne : K.current (K.slabContainer k) ≠ s := by
      rw [hcur]
      cases hc' : (h.pool.container k).current with
      | none => exact fun e => hs0 e.symm
      | some t =>
        intro e
        exact hc (by rw [hc']; exact congrArg some e)
    obtain ⟨A, B, hAB⟩ := List.append_of_mem (hp hc)
    obtain ⟨hpool, hmem⟩ := hr.pool.unlink hl h6 h11 hAB
    have hers : (h.pool.container k).partials.erase s = A ++ B := by
      have hnd := hl.nodup k
      rw [hAB, List.nodup_append] at hnd
      have hA : s ∉ A := fun e => hnd.2.2 s e s List.mem_cons_self rfl
      rw [hAB, List.erase_append_right _ hA, List.erase_cons_head]
    rw [unlinkSlab, if_neg hne, Pool.detach, if_neg hc, hers]
    exact ⟨hr.withMem hpool, Writes.withMem hmem⟩

/-- The part of `__slab_free` after the block has been put back, for a slab that was full. -/
lemma settleSlab_park (hr : K.Rep h) (hl : h.pool.Layout K.slabPoolG)
    (hs : h.pool.slab s = some ⟨k, [b]⟩) (hps : s ∉ (h.pool.container k).partials)
    (hcur : (h.pool.container k).current ≠ some s) :
    ∃ K', K.settleSlab s (K.slabContainer k) = .ok (0, K') ∧ K'.Rep ⟨h.buddy, h.pool.park k s⟩ ∧
      Writes K (h.pool.Owns K.slabPoolG) K' := by
  have hw := hl.slabs s _ hs
  have hcount : K.mem.load (s + 32) 4 = 1 := (hr.pool.header s _ hs).count
  obtain ⟨hpool, hmem⟩ := hr.pool.append hl hw.order_ge hw.order_le hs rfl hps
  obtain ⟨m, hm⟩ : ∃ x : Mem, x = listAppend memLinks K.mem (s + 16) (containerAt K.slabPoolG k + 8) :=
    ⟨_, rfl⟩
  rw [← hm] at hpool hmem
  have hr' := hr.withMem hpool
  have hne : (K.withMem m).current (K.slabContainer k) ≠ s := by
    have hc := current_refines hr' hw.order_ge hw.order_le
    rw [Pool.container_park, if_pos rfl] at hc
    intro e
    have e' : (h.pool.container k).current.getD 0 = s := hc.symm.trans e
    cases hcs : (h.pool.container k).current with
    | none =>
      rw [hcs] at e'
      exact (slab_address hl hs).1 e'.symm
    | some t =>
      rw [hcs] at e'
      exact hcur (hcs.trans (congrArg some e'))
  refine ⟨K.withMem m, ?_, hr', Writes.withMem hmem⟩
  rw [settleSlab, if_pos hcount, slabContainer_eq, ← hm]
  exact if_neg hne

/-- The same for a slab whose blocks are all free; its chunk is given back. -/
lemma settleSlab_retire (hr : K.Rep h) (hl : h.pool.Layout K.slabPoolG) {l : List ℕ} {bud : Buddy}
    (hs : h.pool.slab s = some ⟨k, l⟩) (hall : l.length + 1 = 2 ^ (17 - k))
    (hret : Heap.Returns h.buddy s bud)
    (hpart : (h.pool.container k).current ≠ some s → s ∈ (h.pool.container k).partials) :
    ∃ K', K.settleSlab s (K.slabContainer k) = .ok (0, K') ∧
      K'.Rep ⟨bud, (h.pool.detach k s).drop s⟩ ∧ K'.slabPoolG = K.slabPoolG ∧
      (∀ x, ¬ h.pool.Owns K.slabPoolG x → K'.mem x = K.mem x) ∧
      K'.releases = ⟨s, K.mem⟩ :: K.releases := by
  have hw := hl.slabs s _ hs
  have h6 : 6 ≤ k := hw.order_ge
  have h11 : k ≤ 11 := hw.order_le
  have hge := two_pow_sub_ge h11
  have hcount : K.mem.load (s + 32) 4 = l.length := (hr.pool.header s _ hs).count
  have htotal : predWord32 (K.mem.load (s + 36) 4) = 2 ^ (17 - k) - 1 := by
    have htot : K.mem.load (s + 36) 4 = 2 ^ (17 - k) := (hr.pool.header s _ hs).total
    rw [htot, predWord32_of_pos (by omega) (two_pow_sub_lt k)]
  have hput := putSlabToBuddy_refines (K := K) (by rw [hr.buddy]; exact hret)
    (by rw [hcount, htotal]; omega)
  obtain ⟨K₁, hK₁⟩ : ∃ x : Kernel, x = ⟨bud, K.mem, K.slabPoolG, ⟨s, K.mem⟩ :: K.releases⟩ :=
    ⟨_, rfl⟩
  rw [← hK₁] at hput
  have hr₁ : K₁.Rep ⟨bud, h.pool⟩ := by
    rw [hK₁]
    exact ⟨rfl, hr.pool⟩
  have hbase : K₁.slabPoolG = K.slabPoolG := by rw [hK₁]
  have hsc : K₁.slabContainer k = K.slabContainer k := by
    rw [slabContainer_eq, slabContainer_eq, hbase]
  obtain ⟨hr₂, hw₂⟩ := unlinkSlab_refines hr₁ (by rw [hbase]; exact hl) h6 h11 hs hpart
  rw [hsc] at hr₂ hw₂
  refine ⟨K₁.unlinkSlab s (K.slabContainer k), ?_, ⟨hr₂.buddy, hr₂.pool.drop⟩, ?_, fun x hx => ?_, ?_⟩
  · rw [settleSlab, hcount, htotal, if_neg (by omega), if_pos (by omega)]
    simp only [hput, ok_bind, if_true, pure_eq_ok]
  · rw [hw₂.slabPoolG, hbase]
  · rw [← hbase] at hx
    rw [hw₂.mem x hx, hK₁]
  · rw [hw₂.releases, hK₁]

/-- The same for a slab that has both free blocks and others. -/
lemma settleSlab_keep (hr : K.Rep h) (hl : h.pool.Layout K.slabPoolG) {l : List ℕ}
    (hs : h.pool.slab s = some ⟨k, l⟩) (h1 : l.length ≠ 1) (hsome : l.length + 1 ≠ 2 ^ (17 - k)) :
    K.settleSlab s (K.slabContainer k) = .ok (0, K) := by
  have hge := two_pow_sub_ge (hl.slabs s _ hs).order_le
  have hcount : K.mem.load (s + 32) 4 = l.length := (hr.pool.header s _ hs).count
  have htotal : K.mem.load (s + 36) 4 = 2 ^ (17 - k) := (hr.pool.header s _ hs).total
  simp only [] at hge
  rw [settleSlab, hcount, htotal, predWord32_of_pos (by omega) (two_pow_sub_lt k), if_neg h1,
    if_neg (by omega)]

/-- `__slab_free`; `m` is the memory at the call of `buddy_free_pages`, if there is one. -/
lemma freeBlock_refines (hr : K.Rep h) (hi : Heap.Inv K.slabPoolG h pages) {σ : Header}
    (hs : h.pool.slab s = some σ) (hb : b ∈ blocks s σ.order) (hf : b ∉ σ.free)
    (e : h.free s b = .ok h') :
    ∃ K' m, K.__slabFree s b = .ok (0, K') ∧ K'.Rep h' ∧ K'.slabPoolG = K.slabPoolG ∧
      (∀ x, ¬ (h.pool.Owns K.slabPoolG x ∨ (b ≤ x ∧ x < b + 2 ^ σ.order)) → K'.mem x = K.mem x) ∧
      PoolAt m K.slabPoolG (h.pool.setFree σ.order s (b :: σ.free)) ∧
      K'.releases = if σ.free.length + 2 = 2 ^ (17 - σ.order) then ⟨s, m⟩ :: K.releases
        else K.releases := by
  obtain ⟨k, l⟩ := σ
  have hw := hi.layout.slabs s _ hs
  have hge := two_pow_sub_ge hw.order_le
  simp only [] at hge
  obtain ⟨K1, e1, hr1, hw1⟩ := slabPutBlock_refines hr hi.layout hs hb hf
  have hs1 : (h.pool.setFree k s (b :: l)).slab s = some ⟨k, b :: l⟩ := by
    rw [Pool.slab_setFree, if_pos rfl]
  have hcore1 : Heap.Core K.slabPoolG ⟨h.buddy, h.pool.setFree k s (b :: l)⟩ pages := by
    refine hi.toCore.setFree hs (List.nodup_cons.2 ⟨hf, hw.nodup⟩) fun c hc => ?_
    rcases List.mem_cons.1 hc with rfl | hc
    · exact hb
    · exact hw.blocks c hc
  have hl1 : (h.pool.setFree k s (b :: l)).Layout K1.slabPoolG := by
    rw [hw1.slabPoolG]
    exact hcore1.layout
  have hstart : K.__slabFree s b = K1.settleSlab s (K1.slabContainer k) := by
    have hord : K.mem.load s 4 = k := (hr.pool.header s _ hs).order
    have h6 : 6 ≤ k := hw.order_ge
    have h11 : k ≤ 11 := hw.order_le
    rw [__slabFree]
    simp only [hord, e1, ok_bind]
    rw [if_neg (by simp only [minSlabBlockOrder, maxSlabBlockOrder]; omega)]
  have hpool1 : PoolAt K1.mem K.slabPoolG (h.pool.setFree k s (b :: l)) := by
    rw [← hw1.slabPoolG]
    exact hr1.pool
  have hown1 : ∀ x, ¬ (h.pool.Owns K.slabPoolG x ∨ (b ≤ x ∧ x < b + 2 ^ k)) →
      ¬ (h.pool.setFree k s (b :: l)).Owns K1.slabPoolG x := by
    intro x hx hx1
    rw [hw1.slabPoolG] at hx1
    exact hx (Pool.owns_push hs hx1)
  rw [Heap.free, hs] at e
  simp only [Heap.settle] at e
  rw [hstart]
  by_cases h1 : l.length + 1 = 1
  · -- the slab was full
    have hnil : l = [] := List.length_eq_zero_iff.1 (by omega)
    subst hnil
    rw [if_pos h1] at e
    cases e
    have hps : s ∉ (h.pool.container k).partials := by
      intro hp
      have := (hi.settled.partials k s hp _ hs).1
      simp at this
    have hcur : (h.pool.container k).current ≠ some s := fun hc => hi.settled.current k s _ hc hs rfl
    obtain ⟨K2, e2, hr2, hw2⟩ := settleSlab_park hr1 hl1 hs1 hps hcur
    refine ⟨K2, K1.mem, e2, hr2, hw2.slabPoolG.trans hw1.slabPoolG, fun x hx => ?_, hpool1, ?_⟩
    · exact (hw2.mem x (hown1 x hx)).trans (hw1.mem x hx)
    · rw [if_neg (by simp only [List.length_nil]; omega)]
      exact hw2.releases.trans hw1.releases
  · rw [if_neg h1] at e
    have hne : l ≠ [] := by
      rintro rfl
      exact h1 rfl
    by_cases h2 : l.length + 1 + 1 = 2 ^ (17 - k)
    · -- the slab is free again
      rw [if_pos h2] at e
      obtain ⟨b2, hret, -, -⟩ := Heap.retire_spec hcore1 hs1 (hi.settled.apart k s)
      rw [Heap.Returns.retire (h := ⟨h.buddy, h.pool.setFree k s (b :: l)⟩) hret] at e
      cases e
      have hpart : (h.pool.container k).current ≠ some s → s ∈ (h.pool.container k).partials :=
        fun hc => mem_partials hi.settled hs hne hc
      obtain ⟨K2, e2, hr2, hg2, hm2, hrel⟩ := settleSlab_retire hr1 hl1 hs1 h2 hret hpart
      refine ⟨K2, K1.mem, e2, hr2, hg2.trans hw1.slabPoolG, fun x hx => ?_, hpool1, ?_⟩
      · exact (hm2 x (hown1 x hx)).trans (hw1.mem x hx)
      · rw [if_pos (by simp only []; omega), hrel, hw1.releases]
    · rw [if_neg h2] at e
      cases e
      refine ⟨K1, K1.mem, settleSlab_keep hr1 hl1 hs1 h1 h2, hr1, hw1.slabPoolG,
        fun x hx => hw1.mem x hx, hpool1, ?_⟩
      rw [if_neg (by simp only []; omega)]
      exact hw1.releases

end Kernel

end KingdoKernel
