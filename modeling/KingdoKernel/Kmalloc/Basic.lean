import KingdoKernel.Slab.Basic

/-!
# `kmalloc`

Model of `mm/kmalloc.c`, with `size_to_page_order` of `include/mm/buddy.h`. `get_pages` and
`free_pages` hand out whole chunks of the buddy allocator; `kmalloc` takes blocks from the slab
allocator up to its largest block and chunks above, and `kfree` tells the two apart by `page->slab`.

The initial state is that of `mm_init` after `init_buddy` and `init_slab`, for the layout that the
linker has chosen (`Image`).
-/

namespace KingdoKernel

/-- Where the linker has put the end of the image and `slab_pool_g`, which lies below the memory that
`init_buddy` manages. -/
structure Image where
  imgEnd : ℕ
  slabPoolG : ℕ
  below : slabPoolG + 192 ≤ (Buddy.initRegion imgEnd).startAddr

/-- `ZERO_SIZE_PTR`. -/
def zeroSizePtr : ℕ := 2 ^ 64 - 1

namespace Kernel
open Buddy Slab

/-- The loop of `size_to_page_order`. -/
def pageOrderLoop (size order : ℕ) : ℕ :=
  if buddyChunkSize order < size then pageOrderLoop size (order + 1) else order
termination_by size - 2 ^ (12 + order)
decreasing_by
  have h1 : 2 ^ (12 + order) < size := by assumption
  have h2 : 2 ^ (12 + order) < 2 ^ (12 + (order + 1)) := Nat.pow_lt_pow_right (by norm_num) (by omega)
  omega

/-- `size_to_page_order`; `-1` is `none`. -/
def sizeToPageOrder (size : ℕ) : Option ℕ :=
  if size ≤ 0 ∨ buddyChunkSize (buddyMaxOrder - 1) < size then none
  else some (pageOrderLoop size 0)

/-- `get_pages`. -/
def getPages (k : Kernel) (order : ℕ) : Except Fault (ℕ × Kernel) := do
  let (page, buddy) ← k.buddy.buddyGetPages order
  match page with
  | none => pure (0, k.withBuddy buddy)
  | some page => pure (buddy.pageToVirt page, k.withBuddy buddy)

/-- `free_pages`. -/
def freePages (k : Kernel) (addr : ℕ) : Except Fault Kernel :=
  match k.buddy.virtToPage addr with
  | none => .ok k
  | some page => do
    let buddy ← k.buddy.buddyFreePages page
    pure (k.withBuddy buddy)

/-- `get_pages` of an order that `size_to_page_order` has computed; an order of `-1` indexes the free
lists out of bounds. -/
def getPagesOf (k : Kernel) (order : Option ℕ) : Except Fault (ℕ × Kernel) :=
  match order with
  | none => .error .wild
  | some order => k.getPages order

/-- `__kmalloc`: the pointer, and the value of `*real_size` if it has been set to a defined one. The
shift by an order of `-1` is undefined. -/
def __kmalloc (k : Kernel) (size : ℕ) : Except Fault (ℕ × Option ℕ × Kernel) :=
  if size ≤ slabOrderToSize maxSlabBlockOrder then do
    let (addr, k) ← k.slabAlloc size
    pure (addr, (sizeToSlabOrder size).map slabOrderToSize, k)
  else if size ≤ buddyChunkSize (buddyMaxOrder - 1) then do
    let (addr, k) ← k.getPagesOf (sizeToPageOrder size)
    pure (addr, (sizeToPageOrder size).map buddyChunkSize, k)
  else .ok (0, none, k)

/-- `kmalloc`. -/
def kmalloc (k : Kernel) (size : ℕ) : Except Fault (ℕ × Kernel) :=
  if size = 0 then .ok (zeroSizePtr, k)
  else do
    let (addr, _, k) ← k.__kmalloc size
    pure (addr, k)

/-- `IS_VALID_PTR`. -/
def isValidPtr (ptr : ℕ) : Bool := ptr ≠ 0 ∧ ptr ≠ zeroSizePtr

/-- `kzalloc`. The source clears the memory when the pointer is *not* a valid one. -/
def kzalloc (k : Kernel) (size : ℕ) : Except Fault (ℕ × Kernel) := do
  let (addr, k) ← k.kmalloc size
  if !isValidPtr addr then pure (addr, k.withMem (k.mem.memset addr 0 size)) else pure (addr, k)

/-- `kfree`. -/
def kfree (k : Kernel) (ptr : ℕ) : Except Fault Kernel :=
  if ptr = zeroSizePtr then .ok k
  else
    match k.buddy.virtToPage ptr with
    | none => .ok k
    | some page =>
      if (k.buddy.pages page).slab ≠ 0 then do
        let (_, k) ← k.slabFree ptr
        pure k
      else k.freePages ptr

/-- The allocators after `init_buddy` and `init_slab`, memory holding `m` before. -/
def boot (img : Image) (m : Mem) : Except Fault Kernel := do
  let buddy ← initBuddy img.imgEnd
  pure (initSlab ⟨buddy, m, img.slabPoolG, []⟩)

end Kernel

end KingdoKernel
