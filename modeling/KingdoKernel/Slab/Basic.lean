import KingdoKernel.Buddy.Basic
import KingdoKernel.ListHead

/-!
# The slab allocator

Model of `mm/slab.c` and `include/mm/slab.h` over byte memory. The slab headers, the links of the
partial lists and the links of the free blocks live in the managed pages; `slab_pool_g` lies in the
kernel image. All of them are bytes of `Kernel.mem`. The page descriptors are those of the buddy
allocator and are kept apart from this memory. A pointer is an address, `NULL` is `0`.

Layout of `struct slab_header` (40 bytes): `order` at 0, `next_free_block` at 8, `partial_list_node`
at 16, `free_block_count` at 32, `total_block_count` at 36. Layout of `struct slab_container`
(32 bytes): `current` at 0, `partial_list` at 8; the lock at 24 is not modelled, a call being atomic.

C → Lean naming is as in `Buddy/Basic.lean`; `__slab_alloc` and `__slab_free` keep their underscores.
`Kernel.releases` records the memory at every moment at which `put_slab_to_buddy` calls
`buddy_free_pages`; no function of the source reads it.
-/

namespace KingdoKernel

/-- `EINVAL`. -/
def einval : ℤ := 22

/-- `ENOMEM`. -/
def enomem : ℤ := 12

/-- Subtracting one from an `unsigned int`. -/
def predWord32 (x : ℕ) : ℕ := (x + (2 ^ 32 - 1)) % 2 ^ 32

/-- Adding one to an `unsigned int`. -/
def succWord32 (x : ℕ) : ℕ := (x + 1) % 2 ^ 32

namespace Slab

/-- `MIN_SLAB_BLOCK_ORDER`. -/
def minSlabBlockOrder : ℕ := 6

/-- `MAX_SLAB_BLOCK_ORDER`. -/
def maxSlabBlockOrder : ℕ := 11

/-- `SLAB_PAGE_ORDER`. -/
def slabPageOrder : ℕ := 5

/-- `SLAB_SIZE`. -/
def slabSize : ℕ := 2 ^ 17

/-- `SLAB_PAGES_COUNT`. -/
def slabPagesCount : ℕ := 32

/-- `slab_order_to_size`. -/
def slabOrderToSize (order : ℕ) : ℕ := 2 ^ order

/-- The loop of `size_to_slab_order`. -/
def slabOrderLoop (size order : ℕ) : ℕ :=
  if slabOrderToSize order < size then slabOrderLoop size (order + 1) else order
termination_by size - 2 ^ order
decreasing_by
  have h1 : 2 ^ order < size := by assumption
  have h2 : 2 ^ order < 2 ^ (order + 1) := Nat.pow_lt_pow_right (by norm_num) (by omega)
  omega

/-- `size_to_slab_order`; `-1` is `none`. -/
def sizeToSlabOrder (size : ℕ) : Option ℕ :=
  if size ≤ 0 ∨ slabOrderToSize maxSlabBlockOrder < size then none
  else some (slabOrderLoop size minSlabBlockOrder)

end Slab

/-- The memory when the chunk of a slab is given back to the buddy allocator. -/
structure Release where
  slab : ℕ
  mem : Mem

/-- The allocators' state: the buddy allocator, memory, the address of `slab_pool_g`. -/
structure Kernel where
  buddy : Buddy
  mem : Mem
  slabPoolG : ℕ
  releases : List Release

namespace Kernel
open Slab ListHead

/-- The same kernel with other memory. -/
def withMem (k : Kernel) (m : Mem) : Kernel := ⟨k.buddy, m, k.slabPoolG, k.releases⟩

/-- The same kernel with another buddy state. -/
def withBuddy (k : Kernel) (b : Buddy) : Kernel := ⟨b, k.mem, k.slabPoolG, k.releases⟩

/-- `slab_container(order)`. -/
def slabContainer (k : Kernel) (order : ℕ) : ℕ := k.slabPoolG + 32 * (order - minSlabBlockOrder)

/-- `sc->current`. -/
def current (k : Kernel) (sc : ℕ) : ℕ := k.mem.load sc 8

/-- `sc->current = s`. -/
def setCurrent (k : Kernel) (sc s : ℕ) : Kernel := k.withMem (k.mem.store sc 8 s)

/-- The `while` loop of `alloc_slab_from_buddy`: link every block before `last` to the next one. -/
def linkBlocks (m : Mem) (order block last : ℕ) : ℕ × Mem :=
  if block < last then
    linkBlocks (m.store block 8 (block + slabOrderToSize order)) order
      (block + slabOrderToSize order) last
  else (block, m)
termination_by last - block
decreasing_by
  have : 0 < slabOrderToSize order := Nat.two_pow_pos order
  omega

/-- The loops that set `slab` in the descriptors of `n` pages. -/
def setSlabRange (b : Buddy) (page ptr : ℕ) : ℕ → Except Fault Buddy
  | 0 => .ok b
  | n + 1 => do
    let b ← b.setSlab page ptr
    setSlabRange b (page + 1) ptr n

/-- The chain of the blocks from `block` to `last`. -/
def chainBlocks (m : Mem) (order block last : ℕ) : Mem :=
  let (block, m) := linkBlocks m order block last
  m.store block 8 0

/-- The stores of `alloc_slab_from_buddy` to `order`, `total_block_count` and `free_block_count`. -/
def writeCounts (m : Mem) (order s : ℕ) : Mem :=
  let m := (m.store s 4 order).store (s + 36) 4 (slabSize / slabOrderToSize order)
  m.store (s + 32) 4 (predWord32 (m.load (s + 36) 4))

/-- The part of `alloc_slab_from_buddy` that writes the header and the blocks of a slab at `s`. -/
def formatSlab (m : Mem) (container order s : ℕ) : Mem :=
  let m := (writeCounts m order s).store container 8 s
  let m := m.store (m.load container 8 + 8) 8 (s + slabOrderToSize order)
  chainBlocks m order (s + slabOrderToSize order) (s + slabSize - slabOrderToSize order)

/-- `alloc_slab_from_buddy`. -/
def allocSlabFromBuddy (k : Kernel) (order : ℕ) : Except Fault (ℤ × Kernel) := do
  let (page, buddy) ← k.buddy.buddyGetPages slabPageOrder
  match page with
  | none => pure (-enomem, k.withBuddy buddy)
  | some page => do
    let s := buddy.pageToVirt page
    let m := formatSlab k.mem (k.slabContainer order) order s
    let buddy ← setSlabRange buddy page s slabPagesCount
    pure (0, (k.withMem m).withBuddy buddy)

/-- `slab_get_free_block`. -/
def slabGetFreeBlock (k : Kernel) (s : ℕ) : Except Fault (ℕ × Kernel) :=
  if k.mem.load (s + 32) 4 = 0 then .error (.bugOn "!s->free_block_count")
  else if k.mem.load (s + 8) 8 = 0 then .error (.bugOn "!s->next_free_block")
  else
    let block := k.mem.load (s + 8) 8
    let m := k.mem.store (s + 32) 4 (predWord32 (k.mem.load (s + 32) 4))
    let m := m.store (s + 8) 8 (m.load block 8)
    .ok (block, k.withMem m)

/-- `get_from_partial_list`. -/
def getFromPartialList (k : Kernel) (sc : ℕ) : ℕ × Kernel :=
  if listEmpty memLinks k.mem (sc + 8) then (0, k)
  else
    let s := memLinks.next k.mem (sc + 8) - 16
    (s, k.withMem (listDel memLinks k.mem (s + 16)))

/-- `set_new_current_slab`. -/
def setNewCurrentSlab (k : Kernel) (sc order : ℕ) : Except Fault Kernel := do
  let (s, k) := k.getFromPartialList sc
  let k := k.setCurrent sc s
  if k.current sc = 0 then
    let (err, k) ← k.allocSlabFromBuddy order
    if err ≠ 0 then pure (k.setCurrent sc 0) else pure k
  else pure k

/-- The part of `__slab_alloc` after a current slab has been found. -/
def takeBlock (k : Kernel) (order : ℕ) : Except Fault (ℕ × Kernel) := do
  let sc := k.slabContainer order
  let (addr, k) ← k.slabGetFreeBlock (k.current sc)
  if k.mem.load (k.current sc + 32) 4 = 0 then
    if k.mem.load (k.current sc + 8) 8 ≠ 0 then
      .error (.bugOn "sc->current->next_free_block != NULL")
    else do
      let k ← k.setNewCurrentSlab sc order
      pure (addr, k)
  else pure (addr, k)

/-- `__slab_alloc`. -/
def __slabAlloc (k : Kernel) (order : ℕ) : Except Fault (ℕ × Kernel) :=
  if order < minSlabBlockOrder ∨ maxSlabBlockOrder < order then
    .error (.bugOn "order < MIN_SLAB_BLOCK_ORDER || order > MAX_SLAB_BLOCK_ORDER")
  else if k.current (k.slabContainer order) = 0 then do
    let (err, k) ← k.allocSlabFromBuddy order
    if err ≠ 0 then pure (0, k) else k.takeBlock order
  else k.takeBlock order

/-- `slab_alloc`. -/
def slabAlloc (k : Kernel) (size : ℕ) : Except Fault (ℕ × Kernel) :=
  match sizeToSlabOrder size with
  | none => .ok (0, k)
  | some order => k.__slabAlloc order

/-- The part of `put_slab_to_buddy` after its checks. -/
def releaseSlab (k : Kernel) (s page : ℕ) : Except Fault (ℤ × Kernel) := do
  let buddy ← setSlabRange k.buddy page 0 slabPagesCount
  let releases := ⟨s, k.mem⟩ :: k.releases
  let buddy ← buddy.buddyFreePages page
  pure (0, ⟨buddy, k.mem, k.slabPoolG, releases⟩)

/-- `put_slab_to_buddy`. -/
def putSlabToBuddy (k : Kernel) (s : ℕ) : Except Fault (ℤ × Kernel) :=
  match k.buddy.virtToPage s with
  | none => .error (.kerror "put_slab_to_buddy: invalid slab header %p\n")
  | some page =>
    if k.mem.load (s + 32) 4 ≠ predWord32 (k.mem.load (s + 36) 4) then
      .error (.kerror "put_slab_to_buddy: slab header %p is not full free\n")
    else k.releaseSlab s page

/-- `slab_put_block`. -/
def slabPutBlock (k : Kernel) (s block : ℕ) : Except Fault Kernel :=
  if s = 0 then .error (.bugOn "s == NULL")
  else if block = 0 then .error (.bugOn "block == NULL")
  else
    let size := slabOrderToSize (k.mem.load s 4)
    let blockIndex := subWord block s / size
    let block := s + blockIndex * size
    let m := k.mem.store block 8 (k.mem.load (s + 8) 8)
    let m := m.store (s + 8) 8 block
    let m := m.store (s + 32) 4 (succWord32 (m.load (s + 32) 4))
    .ok (k.withMem m)

/-- The part of `__slab_free` after the chunk of the slab has been given back. -/
def unlinkSlab (k : Kernel) (s sc : ℕ) : Kernel :=
  if k.current sc = s then
    let (s', k) := k.getFromPartialList sc
    k.setCurrent sc s'
  else k.withMem (listDel memLinks k.mem (s + 16))

/-- The part of `__slab_free` after the block has been put back. -/
def settleSlab (k : Kernel) (s sc : ℕ) : Except Fault (ℤ × Kernel) :=
  if k.mem.load (s + 32) 4 = 1 then
    let k := k.withMem (listAppend memLinks k.mem (s + 16) (sc + 8))
    if k.current sc = s then .error (.bugOn "sc->current == s") else .ok (0, k)
  else if k.mem.load (s + 32) 4 = predWord32 (k.mem.load (s + 36) 4) then do
    let (err, k) ← k.putSlabToBuddy s
    if err = 0 then pure (err, k.unlinkSlab s sc)
    else .error (.kerror "slab_free: put slab to buddy failed\n")
  else .ok (0, k)

/-- `__slab_free`. -/
def __slabFree (k : Kernel) (s block : ℕ) : Except Fault (ℤ × Kernel) :=
  let order := k.mem.load s 4
  if order < minSlabBlockOrder ∨ maxSlabBlockOrder < order then
    .error (.bugOn "order < MIN_SLAB_BLOCK_ORDER || order > MAX_SLAB_BLOCK_ORDER")
  else do
    let k ← k.slabPutBlock s block
    k.settleSlab s (k.slabContainer order)

/-- `slab_get_header`. -/
def slabGetHeader (k : Kernel) (addr : ℕ) : Except Fault ℕ :=
  match k.buddy.virtToPage addr with
  | none => .error (.kerror "slab_get_header: invalid address %p\n")
  | some page =>
    if (k.buddy.pages page).slab = 0 then
      .error (.kerror "slab_get_header: invalid address %p\n")
    else .ok (k.buddy.pages page).slab

/-- `slab_free`. -/
def slabFree (k : Kernel) (addr : ℕ) : Except Fault (ℤ × Kernel) :=
  if addr = 0 then .ok (-einval, k)
  else if addr % slabOrderToSize minSlabBlockOrder ≠ 0 then
    .error (.kerror "slab_free: address %p is not aligned\n")
  else do
    let s ← k.slabGetHeader addr
    let (err, k) ← k.__slabFree s addr
    if err ≠ 0 then .error (.kerror "slab_free: failed to free address %p\n") else pure (err, k)

/-- The body of the loop of `init_slab`. -/
def initContainer (k : Kernel) (order : ℕ) : Kernel :=
  let k' := k.setCurrent (k.slabContainer order) 0
  k'.withMem (initListHead memLinks k'.mem (k.slabContainer order + 8))

/-- `init_slab`. -/
def initSlab (k : Kernel) : Kernel :=
  (List.range' minSlabBlockOrder 6).foldl initContainer k

/-- The count of one container in `calculate_slab_free_block_count`, the partial list being followed
for `fuel` steps at most. -/
def containerFreeBlockCount (k : Kernel) (fuel sc : ℕ) : Option ℕ :=
  let count := if k.current sc ≠ 0 then k.mem.load (k.current sc + 32) 4 else 0
  (forEachInList memLinks k.mem (sc + 8) fuel (memLinks.next k.mem (sc + 8))).map fun nodes =>
    count + (nodes.map fun node => k.mem.load (node - 16 + 32) 4).sum

/-- `calculate_slab_free_block_count`. -/
def calculateSlabFreeBlockCount (k : Kernel) (fuel : ℕ) : Option (List ℕ) :=
  (List.range' minSlabBlockOrder 6).mapM fun order =>
    k.containerFreeBlockCount fuel (k.slabContainer order)

end Kernel

end KingdoKernel
