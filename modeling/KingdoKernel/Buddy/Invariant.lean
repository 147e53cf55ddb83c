import KingdoKernel.Buddy.Basic
import KingdoKernel.Lib.Halving

/-!
# The buddy invariant

`Inv s H A` relates a state of the allocator to the set `H` of the chunks that are held by somebody
else and the set `A` of the descriptors whose `allocated` flag is set. The free chunks and the held
ones tile the region (`Inv.tiling`); the fields of a descriptor mean something only at the head of a
tile (`Inv.order`), which is why the stale fields of interior pages do no harm; and no two free chunks
of an order below the largest are buddies (`Inv.noBuddies`).

The code moves chunks in four ways, and each of them keeps the invariant: a chunk leaves its free list
(`Inv.delFree`), enters one (`Inv.addFree`), a held chunk is cut in two (`Inv.splitHeld`), two held
halves become one (`Inv.mergeHeld`).
-/

namespace KingdoKernel.Buddy
open Tiles Tiles.Block

/-- The number of the frame at `start_addr`. -/
def base (s : Buddy) : ℕ := s.startAddr / pageSize

/-- What `init_buddy` guarantees about the bounds of the region: it consists of `page_num` whole
pages, does not wrap around, and ends at a multiple of the largest chunk size. -/
structure Geometry (s : Buddy) : Prop where
  start : s.startAddr = s.base * 4096
  size : s.size = s.pageNum * 4096
  bound : s.startAddr + s.size < 2 ^ 64
  last : 2 ^ 10 ∣ s.base + s.pageNum

/-- The chunks in the free lists. -/
def freeBlocks (s : Buddy) : Set Block :=
  {b | b.order < buddyMaxOrder ∧ b.start ∈ (s.freeLists b.order).freeList}

/-- The free lists without their counters. -/
def lists (s : Buddy) : Lists := fun k => (s.freeLists k).freeList

/-- The first pages of a set of chunks. -/
def heads (H : Set Block) : Set ℕ := {p | ∃ b ∈ H, b.start = p}

/-- The invariant of the allocator while the chunks of `H` are held and exactly the descriptors in
`A` are flagged. -/
structure Inv (s : Buddy) (H : Set Block) (A : Set ℕ) : Prop where
  geo : Geometry s
  tiling : Tiling s.base (s.freeBlocks ∪ H) (Set.Iio s.pageNum)
  apart : ∀ b ∈ H, b ∉ s.freeBlocks
  top : ∀ b ∈ H, b.order < buddyMaxOrder
  order : ∀ b ∈ s.freeBlocks ∪ H, (s.pages b.start).order = b.order
  nodup : ∀ k < buddyMaxOrder, (s.freeLists k).freeList.Nodup
  count : ∀ k < buddyMaxOrder, (s.freeLists k).nrFree = (s.freeLists k).freeList.length
  flagged : ∀ p < s.pageNum, p ∈ A → (s.pages p).allocated = 1
  unflagged : ∀ p < s.pageNum, p ∉ A → (s.pages p).allocated = 0
  noBuddies : NoBuddies s.base (buddyMaxOrder - 1) s.freeBlocks

/-! ## Fields after an update -/

/-- The free blocks are the chunks in the lists. -/
@[simp] lemma mem_freeBlocks {s : Buddy} {b : Block} :
    b ∈ s.freeBlocks ↔ b.order < buddyMaxOrder ∧ b.start ∈ (s.freeLists b.order).freeList :=
  Iff.rfl

/-- Writing a descriptor keeps the first page frame. -/
@[simp] lemma base_setPage (s : Buddy) (p : ℕ) (pg : Page) : (s.setPage p pg).base = s.base := rfl

/-- Adding a chunk keeps the first page frame. -/
@[simp] lemma base_addFree (s : Buddy) (k p : ℕ) : (s.addFree k p).base = s.base := rfl

/-- Taking a chunk out keeps the first page frame. -/
@[simp] lemma base_delFree (s : Buddy) (k p : ℕ) : (s.delFree k p).base = s.base := rfl

/-- Writing a descriptor keeps the number of pages. -/
@[simp] lemma pageNum_setPage (s : Buddy) (p : ℕ) (pg : Page) :
    (s.setPage p pg).pageNum = s.pageNum := rfl

/-- Adding a chunk keeps the number of pages. -/
@[simp] lemma pageNum_addFree (s : Buddy) (k p : ℕ) : (s.addFree k p).pageNum = s.pageNum := rfl

/-- Taking a chunk out keeps the number of pages. -/
@[simp] lemma pageNum_delFree (s : Buddy) (k p : ℕ) : (s.delFree k p).pageNum = s.pageNum := rfl

/-- Writing a descriptor keeps the free blocks. -/
@[simp] lemma freeBlocks_setPage (s : Buddy) (p : ℕ) (pg : Page) :
    (s.setPage p pg).freeBlocks = s.freeBlocks := rfl

/-- Writing a descriptor keeps the lists. -/
@[simp] lemma freeLists_setPage (s : Buddy) (p : ℕ) (pg : Page) :
    (s.setPage p pg).freeLists = s.freeLists := rfl

/-- Adding a chunk keeps the descriptors. -/
@[simp] lemma pages_addFree (s : Buddy) (k p : ℕ) : (s.addFree k p).pages = s.pages := rfl

/-- Taking a chunk out keeps the descriptors. -/
@[simp] lemma pages_delFree (s : Buddy) (k p : ℕ) : (s.delFree k p).pages = s.pages := rfl

/-- The descriptors after one has been written. -/
lemma pages_setPage (s : Buddy) (p : ℕ) (pg : Page) (q : ℕ) :
    (s.setPage p pg).pages q = if q = p then pg else s.pages q := by
  simp [setPage, Function.update_apply]

/-- The descriptors after an order has been written. -/
lemma pages_writeOrder (s : Buddy) (p k q : ℕ) :
    (s.writeOrder p k).pages q =
      if q = p then ⟨(s.pages p).allocated, k, (s.pages p).slab⟩ else s.pages q :=
  pages_setPage _ _ _ _

/-- The descriptors after a flag has been written. -/
lemma pages_writeAllocated (s : Buddy) (p v q : ℕ) :
    (s.writeAllocated p v).pages q =
      if q = p then ⟨v, (s.pages p).order, (s.pages p).slab⟩ else s.pages q :=
  pages_setPage _ _ _ _

/-- The descriptors after the address of a slab has been written. -/
lemma pages_writeSlab (s : Buddy) (p ptr q : ℕ) :
    (s.writeSlab p ptr).pages q =
      if q = p then ⟨(s.pages p).allocated, (s.pages p).order, ptr⟩ else s.pages q :=
  pages_setPage _ _ _ _

/-- Writing the order of a page of the region does not fault. -/
lemma setOrder_ok {s : Buddy} {p k : ℕ} (h : p < s.pageNum) :
    s.setOrder p k = .ok (s.writeOrder p k) := if_pos h

/-- Writing the flag of a page of the region does not fault. -/
lemma setAllocated_ok {s : Buddy} {p v : ℕ} (h : p < s.pageNum) :
    s.setAllocated p v = .ok (s.writeAllocated p v) := if_pos h

/-- Writing the slab of a page of the region does not fault. -/
lemma setSlab_ok {s : Buddy} {p ptr : ℕ} (h : p < s.pageNum) :
    s.setSlab p ptr = .ok (s.writeSlab p ptr) := if_pos h

/-- The lists and counters after a chunk has been added. -/
lemma freeLists_addFree (s : Buddy) (k p j : ℕ) :
    (s.addFree k p).freeLists j =
      if j = k then ⟨p :: (s.freeLists k).freeList, (s.freeLists k).nrFree + 1⟩
      else s.freeLists j := by
  simp [addFree, Function.update_apply]

/-- The lists and counters after a chunk has been taken out. -/
lemma freeLists_delFree (s : Buddy) (k p j : ℕ) :
    (s.delFree k p).freeLists j =
      if j = k then ⟨(s.freeLists k).freeList.erase p, (s.freeLists k).nrFree - 1⟩
      else s.freeLists j := by
  simp [delFree, Function.update_apply]

/-- The lists after a chunk has been added. -/
lemma lists_addFree (s : Buddy) (k p : ℕ) :
    (s.addFree k p).lists = Function.update s.lists k (p :: s.lists k) := by
  funext j
  simp only [lists, freeLists_addFree, Function.update_apply]
  split_ifs with e
  · rfl
  · rfl

/-- The lists after a chunk has been taken out. -/
lemma lists_delFree (s : Buddy) (k p : ℕ) :
    (s.delFree k p).lists = Function.update s.lists k ((s.lists k).erase p) := by
  funext j
  simp only [lists, freeLists_delFree, Function.update_apply]
  split_ifs with e
  · rfl
  · rfl

/-- `list_add` adds one chunk. -/
lemma freeBlocks_addFree {s : Buddy} {k p : ℕ} (hk : k < buddyMaxOrder) :
    (s.addFree k p).freeBlocks = insert ⟨p, k⟩ s.freeBlocks := by
  ext ⟨q, j⟩
  simp only [mem_freeBlocks, freeLists_addFree, Set.mem_insert_iff, Block.mk.injEq]
  by_cases hj : j = k
  · subst hj
    simp [hk]
  · simp [hj]

/-- `list_del` removes one chunk. -/
lemma freeBlocks_delFree {s : Buddy} {k p : ℕ} (hnd : (s.freeLists k).freeList.Nodup) :
    (s.delFree k p).freeBlocks = s.freeBlocks \ {⟨p, k⟩} := by
  ext ⟨q, j⟩
  simp only [mem_freeBlocks, freeLists_delFree, Set.mem_sdiff, Set.mem_singleton_iff,
    Block.mk.injEq]
  by_cases hj : j = k
  · subst hj
    simp only [if_true, hnd.mem_erase_iff]
    tauto
  · simp [hj]

namespace Geometry

variable {s s' : Buddy}

/-- The bounds of the region do not change. -/
lemma congr (h : Geometry s) (h1 : s'.startAddr = s.startAddr) (h2 : s'.size = s.size)
    (h3 : s'.pageNum = s.pageNum) : Geometry s' := by
  have hb : s'.base = s.base := by rw [base, base, h1]
  exact ⟨by rw [h1, hb, h.start], by rw [h2, h3, h.size], by rw [h1, h2]; exact h.bound,
    by rw [hb, h3]; exact h.last⟩

/-- `virt_to_page` on an address inside the region. -/
lemma virtToPage_of_mem (h : Geometry s) {a : ℕ} (h1 : s.startAddr ≤ a)
    (h2 : a < s.startAddr + s.size) : s.virtToPage a = some ((a - s.startAddr) / 4096) := by
  have hb := h.bound
  have hs := h.size
  have hlt : (a - s.startAddr) / 4096 < s.pageNum := by omega
  rw [virtToPage, Nat.mod_eq_of_lt hb, if_neg (by omega)]
  exact if_neg (not_le.2 hlt)

/-- `virt_to_page` on an address outside the region. -/
lemma virtToPage_of_not_mem (h : Geometry s) {a : ℕ}
    (h1 : a < s.startAddr ∨ s.startAddr + s.size ≤ a) : s.virtToPage a = none := by
  rw [virtToPage, Nat.mod_eq_of_lt h.bound, if_pos h1]

/-- `virt_to_page` inverts `page_to_virt`. -/
lemma virtToPage_pageToVirt (h : Geometry s) {p : ℕ} (hp : p < s.pageNum) :
    s.virtToPage (s.pageToVirt p) = some p := by
  have hs := h.size
  have e : s.pageToVirt p = s.startAddr + p * 4096 := rfl
  rw [h.virtToPage_of_mem (by omega) (by omega), e]
  congr 1
  omega

/-- The page address rounded down to a chunk size is the address of the frame that starts the
slot. -/
lemma roundDown_pageToVirt (h : Geometry s) (p k : ℕ) :
    roundDown (s.pageToVirt p) (buddyChunkSize k) = slot s.base k p * 2 ^ k * 4096 := by
  have e : s.pageToVirt p = (s.base + p) * 4096 := by
    have := h.start
    simp only [pageToVirt, pageSize]
    omega
  have e2 : buddyChunkSize k = 4096 * 2 ^ k := by
    simp [buddyChunkSize, pow_add]
  rw [roundDown, e, e2, Nat.mul_comm (s.base + p), Nat.mul_div_mul_left _ _ (by norm_num), slot]
  ring

/-- `virt_to_page` of the rounded address: the first page of the slot, if the region has it. -/
lemma virtToPage_roundDown (h : Geometry s) {p : ℕ} (hp : p < s.pageNum) (k : ℕ) :
    s.virtToPage (roundDown (s.pageToVirt p) (buddyChunkSize k)) =
      if s.base ≤ slot s.base k p * 2 ^ k then some (slot s.base k p * 2 ^ k - s.base)
      else none := by
  have hst := h.start
  have hsz := h.size
  have hle : slot s.base k p * 2 ^ k ≤ s.base + p := Nat.div_mul_le_self _ _
  rw [h.roundDown_pageToVirt]
  split_ifs with hb
  · rw [h.virtToPage_of_mem (by omega) (by omega)]
    congr 1
    omega
  · exact h.virtToPage_of_not_mem (by omega)

/-- An aligned block that starts in the region ends in it, up to the largest order. -/
lemma block_le (h : Geometry s) {b : Block} (hb : b.Aligned s.base) (hk : b.order ≤ 10)
    (hp : b.start < s.pageNum) : b.start + 2 ^ b.order ≤ s.pageNum := by
  obtain ⟨q, hq⟩ := hb
  obtain ⟨r, hr⟩ := (pow_dvd_pow 2 hk).trans h.last
  have hlt : q < r := by
    by_contra hge
    have := Nat.mul_le_mul_left (2 ^ b.order) (not_lt.1 hge)
    omega
  have := Nat.mul_le_mul_left (2 ^ b.order) hlt
  rw [Nat.mul_succ] at this
  omega

end Geometry

namespace Inv

variable {s : Buddy} {H : Set Block} {A : Set ℕ} {p k : ℕ}

/-- A tile lies inside the region. -/
lemma start_lt (h : Inv s H A) {b : Block} (hb : b ∈ s.freeBlocks ∪ H) : b.start < s.pageNum :=
  h.tiling.subset hb b.start_mem

/-- A tile ends inside the region. -/
lemma end_le (h : Inv s H A) {b : Block} (hb : b ∈ s.freeBlocks ∪ H) :
    b.start + 2 ^ b.order ≤ s.pageNum := by
  have hpos : 0 < 2 ^ b.order := by positivity
  have hlast : b.start + (2 ^ b.order - 1) ∈ Set.Iio s.pageNum :=
    h.tiling.subset hb ⟨by omega, by omega⟩
  rw [Set.mem_Iio] at hlast
  omega

/-- Tiles with the same head are equal. -/
lemma eq_of_start (h : Inv s H A) {b c : Block} (hb : b ∈ s.freeBlocks ∪ H)
    (hc : c ∈ s.freeBlocks ∪ H) (e : b.start = c.start) : b = c :=
  h.tiling.disjoint b hb c hc b.start b.start_mem (e ▸ c.start_mem)

/-- A chunk leaves its free list and is held. -/
lemma delFree (h : Inv s H A) (hk : k < buddyMaxOrder)
    (hp : p ∈ (s.freeLists k).freeList) : Inv (s.delFree k p) (insert ⟨p, k⟩ H) A := by
  have hF := freeBlocks_delFree (p := p) (h.nodup k hk)
  have hmem : (⟨p, k⟩ : Block) ∈ s.freeBlocks := ⟨hk, hp⟩
  have hT : (s.delFree k p).freeBlocks ∪ insert ⟨p, k⟩ H = s.freeBlocks ∪ H := by
    rw [hF, Set.union_insert, ← Set.insert_union, Set.insert_sdiff_singleton,
      Set.insert_eq_of_mem hmem]
  refine ⟨h.geo.congr rfl rfl rfl, ?_, ?_, ?_, ?_, ?_, ?_, h.flagged, h.unflagged, ?_⟩
  · rw [hT]
    exact h.tiling
  · rintro b (rfl | hb) hbF <;> rw [hF] at hbF
    · exact hbF.2 rfl
    · exact h.apart b hb hbF.1
  · rintro b (rfl | hb)
    · exact hk
    · exact h.top b hb
  · rw [hT]
    exact h.order
  · intro j hj
    rw [freeLists_delFree]
    split_ifs with e
    · subst e
      exact (h.nodup j hj).erase p
    · exact h.nodup j hj
  · intro j hj
    rw [freeLists_delFree]
    split_ifs with e
    · subst e
      simp only [h.count j hj, List.length_erase_of_mem hp]
    · exact h.count j hj
  · intro b hb c hc
    rw [hF] at hb hc
    exact h.noBuddies b hb.1 c hc.1

/-- A held chunk enters a free list that does not hold its buddy. -/
lemma addFree (h : Inv s (insert ⟨p, k⟩ H) A) (hH : (⟨p, k⟩ : Block) ∉ H)
    (hnb : ∀ c ∈ s.freeBlocks, c.order = k → k < buddyMaxOrder - 1 →
      slot s.base (k + 1) c.start ≠ slot s.base (k + 1) p) : Inv (s.addFree k p) H A := by
  have hk : k < buddyMaxOrder := h.top ⟨p, k⟩ (Set.mem_insert _ _)
  have hF := freeBlocks_addFree (s := s) (p := p) hk
  have hnew : (⟨p, k⟩ : Block) ∉ s.freeBlocks := h.apart _ (Set.mem_insert _ _)
  have hT : (s.addFree k p).freeBlocks ∪ H = s.freeBlocks ∪ insert ⟨p, k⟩ H := by
    rw [hF, Set.insert_union, Set.union_insert]
  refine ⟨h.geo.congr rfl rfl rfl, ?_, ?_, ?_, ?_, ?_, ?_, h.flagged, h.unflagged, ?_⟩
  · rw [hT]
    exact h.tiling
  · intro b hb hbF
    rw [hF] at hbF
    rcases hbF with rfl | hbF
    · exact hH hb
    · exact h.apart b (Set.mem_insert_of_mem _ hb) hbF
  · exact fun b hb => h.top b (Set.mem_insert_of_mem _ hb)
  · rw [hT]
    exact h.order
  · intro j hj
    rw [freeLists_addFree]
    split_ifs with e
    · subst e
      exact List.nodup_cons.2 ⟨fun hp => hnew ⟨hk, hp⟩, h.nodup j hj⟩
    · exact h.nodup j hj
  · intro j hj
    rw [freeLists_addFree]
    split_ifs with e
    · subst e
      simp [h.count j hj]
    · exact h.count j hj
  · rintro b hb c hc ho hlt hs
    rw [hF] at hb hc
    rcases hb with rfl | hb <;> rcases hc with rfl | hc
    · rfl
    · exact (hnb c hc ho.symm hlt hs.symm).elim
    · have ho' : b.order = k := ho
      rw [ho'] at hlt hs
      exact (hnb b hb ho hlt hs).elim
    · exact h.noBuddies b hb c hc ho hlt hs

/-- A held chunk is cut in two and the orders of both halves are written. -/
lemma splitHeld (h : Inv s (insert ⟨p, k + 1⟩ H) A) (hH : (⟨p, k + 1⟩ : Block) ∉ H) :
    Inv ((s.writeOrder p k).writeOrder (p + 2 ^ k) k)
      (insert ⟨p, k⟩ (insert ⟨p + 2 ^ k, k⟩ H)) A := by
  have hk : k + 1 < buddyMaxOrder := h.top ⟨p, k + 1⟩ (Set.mem_insert _ _)
  have hold : (⟨p, k + 1⟩ : Block) ∈ s.freeBlocks ∪ insert ⟨p, k + 1⟩ H :=
    .inr (Set.mem_insert _ _)
  have hnot : (⟨p, k + 1⟩ : Block) ∉ s.freeBlocks ∪ H := by
    rintro (hb | hb)
    · exact h.apart _ (Set.mem_insert _ _) hb
    · exact hH hb
  have hT := h.tiling
  rw [Set.union_insert] at hT
  have hT' := hT.split hnot
  have hpos : 0 < 2 ^ k := by positivity
  -- no other tile starts inside the chunk that was cut
  have hout : ∀ b ∈ s.freeBlocks ∪ H, b.start ≠ p ∧ b.start ≠ p + 2 ^ k := by
    intro b hb
    have hne : ∀ n, n ∈ (⟨p, k + 1⟩ : Block).pages → n ∉ b.pages := fun n hn hnb =>
      hnot (hT.disjoint _ (Set.mem_insert _ _) b (Set.mem_insert_of_mem _ hb) n hn hnb ▸ hb)
    constructor
    · exact fun e => hne p (start_mem _) (e ▸ b.start_mem)
    · exact fun e => hne (p + 2 ^ k) (mem_pages_succ.2 (.inr (start_mem ⟨p + 2 ^ k, k⟩)))
        (e ▸ b.start_mem)
  refine ⟨h.geo.congr rfl rfl rfl, ?_, ?_, ?_, ?_, h.nodup, h.count, ?_, ?_, h.noBuddies⟩
  · rw [Set.union_insert, Set.union_insert]
    exact hT'
  · rintro b (rfl | rfl | hb) hbF
    · exact (hout _ (.inl hbF)).1 rfl
    · exact (hout _ (.inl hbF)).2 rfl
    · exact h.apart b (Set.mem_insert_of_mem _ hb) hbF
  · rintro b (rfl | rfl | hb)
    · exact Nat.lt_of_succ_lt hk
    · exact Nat.lt_of_succ_lt hk
    · exact h.top b (Set.mem_insert_of_mem _ hb)
  · rintro b (hb | rfl | rfl | hb)
    · have hb' := hout b (.inl hb)
      simp only [pages_writeOrder, if_neg hb'.1, if_neg hb'.2]
      exact h.order b (.inl hb)
    · have hne : p ≠ p + 2 ^ k := by omega
      simp only [pages_writeOrder, if_neg hne, if_true]
    · simp only [pages_writeOrder, if_true]
    · have hb' := hout b (.inr hb)
      simp only [pages_writeOrder, if_neg hb'.1, if_neg hb'.2]
      exact h.order b (.inr (Set.mem_insert_of_mem _ hb))
  · intro q hq hqA
    have := h.flagged q hq hqA
    simp only [pages_writeOrder]
    split_ifs <;> simp_all
  · intro q hq hqA
    have := h.unflagged q hq hqA
    simp only [pages_writeOrder]
    split_ifs <;> simp_all

/-- Two held halves become one chunk, whose order is written. -/
lemma mergeHeld (h : Inv s (insert ⟨p, k⟩ (insert ⟨p + 2 ^ k, k⟩ H)) A)
    (hal : Aligned s.base ⟨p, k + 1⟩) (hk : k + 1 < buddyMaxOrder)
    (h1 : (⟨p, k⟩ : Block) ∉ H) (h2 : (⟨p + 2 ^ k, k⟩ : Block) ∉ H) :
    Inv (s.writeOrder p (k + 1)) (insert ⟨p, k + 1⟩ H) A := by
  have hlow : (⟨p, k⟩ : Block) ∈ s.freeBlocks ∪ insert ⟨p, k⟩ (insert ⟨p + 2 ^ k, k⟩ H) :=
    .inr (Set.mem_insert _ _)
  have hn1 : (⟨p, k⟩ : Block) ∉ s.freeBlocks ∪ H := by
    rintro (hb | hb)
    · exact h.apart _ (Set.mem_insert _ _) hb
    · exact h1 hb
  have hn2 : (⟨p + 2 ^ k, k⟩ : Block) ∉ s.freeBlocks ∪ H := by
    rintro (hb | hb)
    · exact h.apart _ (Set.mem_insert_of_mem _ (Set.mem_insert _ _)) hb
    · exact h2 hb
  have hT := h.tiling
  simp only [Set.union_insert] at hT
  have hT' := hT.merge hal hn1 hn2
  have hout : ∀ b ∈ s.freeBlocks ∪ H, b.start ≠ p := by
    intro b hb e
    have hb' : b ∈ insert (⟨p, k⟩ : Block) (insert ⟨p + 2 ^ k, k⟩ (s.freeBlocks ∪ H)) :=
      Set.mem_insert_of_mem _ (Set.mem_insert_of_mem _ hb)
    exact hn1 (hT.disjoint _ (Set.mem_insert _ _) b hb' p (start_mem _) (e ▸ b.start_mem) ▸ hb)
  refine ⟨h.geo.congr rfl rfl rfl, ?_, ?_, ?_, ?_, h.nodup, h.count, ?_, ?_, h.noBuddies⟩
  · rw [Set.union_insert]
    exact hT'
  · rintro b (rfl | hb) hbF
    · exact hout _ (.inl hbF) rfl
    · exact h.apart b (Set.mem_insert_of_mem _ (Set.mem_insert_of_mem _ hb)) hbF
  · rintro b (rfl | hb)
    · exact hk
    · exact h.top b (Set.mem_insert_of_mem _ (Set.mem_insert_of_mem _ hb))
  · rintro b (hb | rfl | hb)
    · simp only [pages_writeOrder, if_neg (hout b (.inl hb))]
      exact h.order b (.inl hb)
    · simp only [pages_writeOrder, if_true]
    · simp only [pages_writeOrder, if_neg (hout b (.inr hb))]
      exact h.order b (.inr (Set.mem_insert_of_mem _ (Set.mem_insert_of_mem _ hb)))
  · intro q hq hqA
    have := h.flagged q hq hqA
    simp only [pages_writeOrder]
    split_ifs <;> simp_all
  · intro q hq hqA
    have := h.unflagged q hq hqA
    simp only [pages_writeOrder]
    split_ifs <;> simp_all

end Inv

end KingdoKernel.Buddy
