import Mathlib

/-!
# The buddy allocator

Model of `mm/buddy.c` and `include/mm/buddy.h`. `Buddy` is `memory_region_g` together with the
descriptor array `page_arrry` points to. A `struct page *` is the index of its descriptor, `NULL` is
`none`; an index at or beyond `page_num` is outside the array and accessing it is `Fault.wild`. A free
list is the sequence of the descriptors linked into it, so the `node` field of `struct page` is not a
field here; `list_add` puts an element in front and `list_del` removes it. Addresses and sizes are
natural numbers with an explicit `% 2 ^ 64` where the arithmetic of the source can wrap.

C → Lean naming (snake case to camel case): `split_chunk` → `splitChunk`, `merge_chunk` →
`mergeChunk`, `populate_page` → `populatePage`, `init_buddy` → `initBuddy`, `buddy_get_pages` →
`buddyGetPages`, `buddy_free_pages` → `buddyFreePages`, `page_to_virt` → `pageToVirt`,
`virt_to_page` → `virtToPage`, `get_free_pages_nums_from_buddy` → `getFreePagesNumsFromBuddy`,
`get_free_mem_size_from_buddy` → `getFreeMemSizeFromBuddy`.

`BUG_ON` and `kerror` print and then loop forever, so a call that reaches one does not return: it is
`Fault.bugOn` or `Fault.kerror`. `kwarn` only prints and leaves no trace in the state. The calls of one
list lock are atomic, hence the lock is not part of the state.
-/

namespace KingdoKernel

/-- The ways a call does not return: a failed `BUG_ON`, a `kerror`, or an access outside the object
the source declares (through `NULL`, or past the end of an array). -/
inductive Fault where
  | bugOn (expr : String)
  | kerror (fmt : String)
  | wild
deriving DecidableEq, Repr

/-- `KBASE`: where the linear map of physical memory starts. -/
def kbase : ℕ := 0xFFFFFF0000000000

/-- `PHYS_MEM_END`. -/
def physMemEnd : ℕ := 0x3F000000

/-- `PAGE_SIZE`. -/
def pageSize : ℕ := 4096

/-- `phys_to_virt`. -/
def physToVirt (x : ℕ) : ℕ := (x + kbase) % 2 ^ 64

/-- `ROUND_DOWN` for a power of two `n`. -/
def roundDown (x n : ℕ) : ℕ := x / n * n

/-- `ROUND_UP` for a power of two `n`, in 64-bit arithmetic. -/
def roundUp (x n : ℕ) : ℕ := (x + (n - 1)) % 2 ^ 64 / n * n

/-- Subtraction of two `unsigned long`s. -/
def subWord (x y : ℕ) : ℕ := (x + (2 ^ 64 - y % 2 ^ 64)) % 2 ^ 64

/-- A subtraction that does not wrap around. -/
lemma subWord_of_le {x y : ℕ} (hx : x < 2 ^ 64) (hy : y ≤ x) : subWord x y = x - y := by
  rw [subWord]
  omega

namespace Buddy

/-- `BUDDY_MAX_ORDER`. -/
def buddyMaxOrder : ℕ := 11

/-- `BUDDY_CHUNK_SIZE`. -/
def buddyChunkSize (order : ℕ) : ℕ := 2 ^ (12 + order)

/-- `BUDDY_CHUNK_PAGES_COUNT`. -/
def buddyChunkPagesCount (order : ℕ) : ℕ := 2 ^ order

/-- `sizeof(struct page)` on the 64-bit target. -/
def sizeofPage : ℕ := 32

/-- `struct page`, without the links of its free list; `slab` is an address, `0` being `NULL`. -/
structure Page where
  allocated : ℕ
  order : ℕ
  slab : ℕ
deriving DecidableEq, Repr

/-- `struct free_list`. -/
structure FreeList where
  freeList : List ℕ
  nrFree : ℕ
deriving DecidableEq, Repr

end Buddy

open Buddy in
/-- `struct mem_region` with the descriptors of `page_arrry`. -/
structure Buddy where
  startAddr : ℕ
  size : ℕ
  pageArrry : ℕ
  pageNum : ℕ
  freeLists : ℕ → FreeList
  pages : ℕ → Page

namespace Buddy

/-- Write a descriptor. -/
def setPage (s : Buddy) (p : ℕ) (pg : Page) : Buddy :=
  { s with pages := Function.update s.pages p pg }

/-- `list_add(&page->node, &free_lists[order].free_list)` and `nr_free++`. -/
def addFree (s : Buddy) (order p : ℕ) : Buddy :=
  { s with
    freeLists := Function.update s.freeLists order
      ⟨p :: (s.freeLists order).freeList, (s.freeLists order).nrFree + 1⟩ }

/-- `list_del(&page->node)` for a page of `free_lists[order]` and `nr_free--`. -/
def delFree (s : Buddy) (order p : ℕ) : Buddy :=
  { s with
    freeLists := Function.update s.freeLists order
      ⟨(s.freeLists order).freeList.erase p, (s.freeLists order).nrFree - 1⟩ }

/-- `page_to_virt`. -/
def pageToVirt (s : Buddy) (p : ℕ) : ℕ := s.startAddr + p * pageSize

/-- `virt_to_page`. -/
def virtToPage (s : Buddy) (ptr : ℕ) : Option ℕ :=
  if ptr < s.startAddr ∨ (s.startAddr + s.size) % 2 ^ 64 ≤ ptr then none
  else
    let pfn := (ptr - s.startAddr) / pageSize
    if s.pageNum ≤ pfn then none else some pfn

/-- The descriptor of `p` with its `order` replaced. -/
def writeOrder (s : Buddy) (p order : ℕ) : Buddy :=
  s.setPage p ⟨(s.pages p).allocated, order, (s.pages p).slab⟩

/-- The descriptor of `p` with its `allocated` replaced. -/
def writeAllocated (s : Buddy) (p v : ℕ) : Buddy :=
  s.setPage p ⟨v, (s.pages p).order, (s.pages p).slab⟩

/-- The descriptor of `p` with its `slab` replaced. -/
def writeSlab (s : Buddy) (p ptr : ℕ) : Buddy :=
  s.setPage p ⟨(s.pages p).allocated, (s.pages p).order, ptr⟩

/-- A store to a descriptor, which has to be one of the array. -/
def store (s : Buddy) (p : ℕ) (s' : Buddy) : Except Fault Buddy :=
  if p < s.pageNum then .ok s' else .error .wild

/-- `page->order = order`. -/
def setOrder (s : Buddy) (p order : ℕ) : Except Fault Buddy := s.store p (s.writeOrder p order)

/-- `page->allocated = v`. -/
def setAllocated (s : Buddy) (p v : ℕ) : Except Fault Buddy := s.store p (s.writeAllocated p v)

/-- `page->slab = ptr`. -/
def setSlab (s : Buddy) (p ptr : ℕ) : Except Fault Buddy := s.store p (s.writeSlab p ptr)

/-- Take the first chunk off `free_lists[order]`; the list head itself is no chunk. -/
def takeFirst (s : Buddy) (order : ℕ) : Except Fault (ℕ × Buddy) :=
  match (s.freeLists order).freeList with
  | [] => .error .wild
  | chunk :: _ => .ok (chunk, s.delFree order chunk)

/-- `split_chunk`. -/
def splitChunk (s : Buddy) (order : ℕ) : Except Fault (Option ℕ × Buddy) :=
  if order < 1 ∨ buddyMaxOrder ≤ order then .ok (none, s)
  else do
    let (chunk, s) ←
      if (s.freeLists order).nrFree = 0 then splitChunk s (order + 1)
      else do
        let (chunk, s) ← s.takeFirst order
        pure (some chunk, s)
    match chunk with
    | none => pure (none, s)
    | some chunk => do
      let order := order - 1
      let chunkBuddy := chunk + buddyChunkPagesCount order
      let s ← s.setOrder chunk order
      let s ← s.setOrder chunkBuddy order
      pure (some chunk, s.addFree order chunkBuddy)
termination_by buddyMaxOrder - order

/-- `merge_chunk`. -/
def mergeChunk (s : Buddy) (chunkOrigin : ℕ) : Except Fault (ℕ × Buddy) :=
  let order := (s.pages chunkOrigin).order
  if s.pageNum ≤ chunkOrigin ∨ buddyMaxOrder ≤ order then .error .wild
  else if (s.freeLists order).nrFree = 0 ∨ order = buddyMaxOrder - 1 then .ok (chunkOrigin, s)
  else
    let chunkMerge :=
      s.virtToPage (roundDown (s.pageToVirt chunkOrigin) (buddyChunkSize (order + 1)))
    let chunkBuddy :=
      if chunkMerge = some chunkOrigin then some (chunkOrigin + buddyChunkPagesCount order)
      else chunkMerge
    match chunkBuddy, chunkMerge with
    | some buddy, some merge =>
      if s.pageNum ≤ buddy then .error .wild
      else if (s.pages buddy).allocated = 1 ∨ (s.pages buddy).order ≠ order then
        .ok (chunkOrigin, s)
      else if buddy ∉ (s.freeLists order).freeList then
        .error (.bugOn "!page_in_list(chunk_buddy, &free_list->free_list)")
      else
        mergeChunk ((s.delFree order buddy).writeOrder merge (order + 1)) merge
    | _, _ => .ok (chunkOrigin, s)
termination_by buddyMaxOrder - (s.pages chunkOrigin).order
decreasing_by
  simp only [writeOrder, setPage, Function.update_self]
  omega

/-- `buddy_free_pages`. -/
def buddyFreePages (s : Buddy) (page : ℕ) : Except Fault Buddy := do
  let s ← s.setAllocated page 0
  let (mergePage, s) ← s.mergeChunk page
  let order := (s.pages mergePage).order
  if buddyMaxOrder ≤ order then .error .wild else .ok (s.addFree order mergePage)

/-- `buddy_get_pages`. -/
def buddyGetPages (s : Buddy) (order : ℕ) : Except Fault (Option ℕ × Buddy) := do
  let (page, s) ←
    if (s.freeLists order).nrFree = 0 then s.splitChunk (order + 1)
    else do
      let (page, s) ← s.takeFirst order
      pure (some page, s)
  match page with
  | none => pure (none, s)
  | some page =>
    if (s.pages page).allocated = 1 then .error (.kerror "page %p has been allocated\n")
    else if (s.pages page).order ≠ order then .error (.bugOn "page->order != order")
    else do
      let s ← s.setAllocated page 1
      pure (some page, s)

/-- `get_free_pages_nums_from_buddy`. -/
def getFreePagesNumsFromBuddy (s : Buddy) : ℕ :=
  ((List.range buddyMaxOrder).map fun order =>
    (s.freeLists order).nrFree * buddyChunkPagesCount order).sum

/-- `get_free_mem_size_from_buddy`. -/
def getFreeMemSizeFromBuddy (s : Buddy) : ℕ :=
  ((List.range buddyMaxOrder).map fun order =>
    (s.freeLists order).nrFree * buddyChunkSize order).sum

/-- The body of `populate_page`'s loops: one free chunk of order `order` at `page`. -/
def populateChunk (s : Buddy) (order page : ℕ) : Buddy :=
  (s.setPage page ⟨0, order, 0⟩).addFree order page

/-- The inner loop of `populate_page` that fills forward, up to `last`. -/
def fillForward (s : Buddy) (order page last : ℕ) : ℕ × Buddy :=
  if page + buddyChunkPagesCount order - 1 < last then
    fillForward (s.populateChunk order page) order (page + buddyChunkPagesCount order) last
  else (page, s)
termination_by last - page
decreasing_by
  have : 0 < buddyChunkPagesCount order := Nat.two_pow_pos order
  omega

/-- The loop of `populate_page` over `[first_aligned_page, first_page + npages)`. -/
def populateForward (s : Buddy) : (n : ℕ) → (page last : ℕ) → Buddy
  | 0, _, _ => s
  | n + 1, page, last =>
    let (page, s) := s.fillForward n page last
    s.populateForward n page last

/-- The inner loop of `populate_page` that fills backward, down to `first`. -/
def fillBackward (s : Buddy) (order page first : ℕ) : ℕ × Buddy :=
  if first + buddyChunkPagesCount order ≤ page then
    fillBackward (s.populateChunk order (page - buddyChunkPagesCount order)) order
      (page - buddyChunkPagesCount order) first
  else (page, s)
termination_by page
decreasing_by
  have : 0 < buddyChunkPagesCount order := Nat.two_pow_pos order
  omega

/-- The loop of `populate_page` over `[first_page, first_aligned_page)`. -/
def populateBackward (s : Buddy) : (n : ℕ) → (page first : ℕ) → Buddy
  | 0, _, _ => s
  | n + 1, page, first =>
    let (page, s) := s.fillBackward n page first
    s.populateBackward n page first

/-- The value of a `struct page *`, as comparisons of pointers see it. -/
def descriptorAddr (s : Buddy) : Option ℕ → ℕ
  | none => 0
  | some p => s.pageArrry + p * sizeofPage

/-- The rest of `populate_page`, once `virt_to_page` has answered. A `NULL` that the comparison with the
end of the region keeps lies below that end, hence the condition of the forward loop holds for it, at
the latest at order `0`, and the first store of the loops goes through it. -/
def populateFrom (s : Buddy) (aligned : Option ℕ) (firstPage npages : ℕ) : Except Fault Buddy :=
  let firstAlignedPage :=
    if s.descriptorAddr (some (firstPage + npages)) ≤ s.descriptorAddr aligned then some firstPage
    else aligned
  match firstAlignedPage with
  | none => .error .wild
  | some page =>
    let s := s.populateForward buddyMaxOrder page (firstPage + npages)
    .ok (s.populateBackward (buddyMaxOrder - 1) page firstPage)

/-- `populate_page`. -/
def populatePage (s : Buddy) (firstPage npages : ℕ) : Except Fault Buddy :=
  s.populateFrom
    (s.virtToPage (roundUp (s.pageToVirt firstPage) (buddyChunkSize (buddyMaxOrder - 1))))
    firstPage npages

/-- `available_phys_mem_start` in `init_buddy`. -/
def availablePhysMemStart (imgEnd : ℕ) : ℕ := roundUp imgEnd pageSize

/-- `available_phys_mem_end` in `init_buddy`. -/
def availablePhysMemEnd : ℕ := roundDown physMemEnd pageSize

/-- `free_phys_mem_start` in `init_buddy`, from the first value of `npages`. -/
def freePhysMemStart (imgEnd : ℕ) : ℕ :=
  let npages :=
    subWord availablePhysMemEnd (availablePhysMemStart imgEnd) / (pageSize + sizeofPage)
  roundUp (availablePhysMemStart imgEnd + npages * sizeofPage) pageSize

/-- The part of `init_buddy` before `populate_page`: the bounds of the region, empty free lists and
cleared descriptors. -/
def initRegion (imgEnd : ℕ) : Buddy where
  startAddr := physToVirt (freePhysMemStart imgEnd)
  size := subWord availablePhysMemEnd (freePhysMemStart imgEnd)
  pageArrry := physToVirt (availablePhysMemStart imgEnd)
  pageNum := subWord availablePhysMemEnd (freePhysMemStart imgEnd) / pageSize
  freeLists := fun _ => ⟨[], 0⟩
  pages := fun _ => ⟨0, 0, 0⟩

/-- `init_buddy`, for the address `img_end` the linker script assigns. -/
def initBuddy (imgEnd : ℕ) : Except Fault Buddy :=
  (initRegion imgEnd).populatePage 0 (initRegion imgEnd).pageNum

end Buddy

end KingdoKernel
