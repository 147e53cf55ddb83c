import KingdoKernel.Buddy.Basic
import KingdoKernel.ListHead

/-!
# The buddy allocator over byte memory

Model of `mm/buddy.c` one level below `Buddy/Basic.lean`: `memory_region_g`, the descriptors and the
links of the free lists are bytes of memory, and a `struct page *` is an address, `NULL` being `0`. The
functions take the address `g` of `memory_region_g`.

Layout of `struct mem_region` (304 bytes): `start_addr` at 0, `size` at 8, `page_arrry` at 16,
`page_num` at 24, `free_lists_lock` at 32, `free_lists` at 40. Layout of `struct free_list` (24 bytes):
`free_list` at 0, `nr_free` at 16. Layout of `struct page` (32 bytes): `node` at 0, `allocated` at 16,
`order` at 20, `slab` at 24. The node is the first field, so that `list_entry` is the identity.

As in `Buddy/Basic.lean`, a descriptor accessed through a pointer has to be one of the array, an index
into `free_lists` has to be below `BUDDY_MAX_ORDER`, and the calls of the list lock are atomic.
-/

namespace KingdoKernel.MemRegion
open Buddy ListHead

/-- `memory_region_g.start_addr`. -/
def startAddr (m : Mem) (g : ℕ) : ℕ := m.load g 8

/-- `memory_region_g.size`. -/
def size (m : Mem) (g : ℕ) : ℕ := m.load (g + 8) 8

/-- `memory_region_g.page_arrry`. -/
def pageArrry (m : Mem) (g : ℕ) : ℕ := m.load (g + 16) 8

/-- `memory_region_g.page_num`. -/
def pageNum (m : Mem) (g : ℕ) : ℕ := m.load (g + 24) 8

/-- `&memory_region_g.free_lists[order]`, which is also the address of its `free_list`. -/
def freeListAt (g order : ℕ) : ℕ := g + 40 + 24 * order

/-- `free_list->nr_free`. -/
def nrFree (m : Mem) (freeList : ℕ) : ℕ := m.load (freeList + 16) 8

/-- `free_list->nr_free = n`. -/
def setNrFree (m : Mem) (freeList n : ℕ) : Mem := m.store (freeList + 16) 8 n

/-- `page->allocated`. -/
def allocated (m : Mem) (page : ℕ) : ℕ := m.load (page + 16) 4

/-- `page->order`. -/
def order (m : Mem) (page : ℕ) : ℕ := m.load (page + 20) 4

/-- `page->allocated = v`. -/
def setAllocated (m : Mem) (page v : ℕ) : Mem := m.store (page + 16) 4 v

/-- `page->order = v`. -/
def setOrder (m : Mem) (page v : ℕ) : Mem := m.store (page + 20) 4 v

/-- The order that has just been written. -/
lemma order_setOrder (m : Mem) (page v : ℕ) : order (setOrder m page v) page = v % 256 ^ 4 :=
  Mem.load_store _ _ _ _

/-- `page->slab = v`. -/
def setSlab (m : Mem) (page v : ℕ) : Mem := m.store (page + 24) 8 v

/-- `pfn_to_page`. -/
def pfnToPage (m : Mem) (g pfn : ℕ) : ℕ := pageArrry m g + sizeofPage * pfn

/-- `page_to_pfn`. -/
def pageToPfn (m : Mem) (g page : ℕ) : ℕ := (page - pageArrry m g) / sizeofPage

/-- The address of a descriptor of the array. -/
def IsPage (m : Mem) (g page : ℕ) : Prop :=
  pageArrry m g ≤ page ∧ (page - pageArrry m g) % sizeofPage = 0 ∧ pageToPfn m g page < pageNum m g

instance (m : Mem) (g page : ℕ) : Decidable (IsPage m g page) := inferInstanceAs (Decidable (_ ∧ _))

/-- `page_to_virt`. -/
def pageToVirt (m : Mem) (g page : ℕ) : ℕ :=
  (startAddr m g + pageToPfn m g page * pageSize) % 2 ^ 64

/-- `virt_to_page`. -/
def virtToPage (m : Mem) (g ptr : ℕ) : ℕ :=
  if ptr < startAddr m g ∨ (startAddr m g + size m g) % 2 ^ 64 ≤ ptr then 0
  else if pageNum m g ≤ (ptr - startAddr m g) / pageSize then 0
  else pfnToPage m g ((ptr - startAddr m g) / pageSize)

/-- The loop of `page_in_list`. A list of descriptors that has not come back to its head after
`page_num` of them never does; the assertion that `page_in_list` is called for is then not passed, which
`false` stands for. -/
def pageInListFrom (m : Mem) (g page list : ℕ) : ℕ → ℕ → Except Fault Bool
  | 0, _ => .ok false
  | fuel + 1, tmp =>
    if tmp = list then .ok false
    else if tmp = page then .ok true
    else if ¬ IsPage m g tmp then .error .wild
    else pageInListFrom m g page list fuel (memLinks.next m tmp)

/-- `page_in_list`. -/
def pageInList (m : Mem) (g page list : ℕ) : Except Fault Bool :=
  if page = 0 ∨ list = 0 ∨ listEmpty memLinks m list = true then .ok false
  else pageInListFrom m g page list (pageNum m g + 1) (memLinks.next m list)

/-- `list_add(&page->node, &free_list->free_list)` and `nr_free++`. -/
def addFree (m : Mem) (g order page : ℕ) : Mem :=
  let m := listAdd memLinks m page (freeListAt g order)
  setNrFree m (freeListAt g order) (nrFree m (freeListAt g order) + 1)

/-- `list_del(&page->node)` and `nr_free--`. -/
def delFree (m : Mem) (g order page : ℕ) : Mem :=
  let m := listDel memLinks m page
  setNrFree m (freeListAt g order) (subWord (nrFree m (freeListAt g order)) 1)

/-- Take the first chunk off `free_lists[order]`; `expr` is the assertion of the caller. -/
def takeFirst (m : Mem) (g order : ℕ) (expr : String) : Except Fault (ℕ × Mem) :=
  let chunk := memLinks.next m (freeListAt g order)
  if chunk = 0 then .error (.bugOn expr)
  else if ¬ IsPage m g chunk then .error .wild
  else .ok (chunk, delFree m g order chunk)

/-- The end of `split_chunk`: `chunk` is cut into two of order `order`, and the upper one is listed. -/
def cutChunk (m : Mem) (g order chunk : ℕ) : Except Fault (ℕ × Mem) :=
  let chunkBuddy := chunk + sizeofPage * buddyChunkPagesCount order
  if ¬ IsPage m g chunk ∨ ¬ IsPage m g chunkBuddy then .error .wild
  else
    let m := setOrder (setOrder m chunk order) chunkBuddy order
    .ok (chunk, addFree m g order chunkBuddy)

/-- `split_chunk`. -/
def splitChunk (m : Mem) (g order : ℕ) : Except Fault (ℕ × Mem) :=
  if order < 1 ∨ buddyMaxOrder ≤ order then .ok (0, m)
  else
    (if nrFree m (freeListAt g order) = 0 then splitChunk m g (order + 1)
      else takeFirst m g order "chunk == NULL") >>= fun r =>
    if r.1 = 0 then .ok (0, r.2) else cutChunk r.2 g (order - 1) r.1
termination_by buddyMaxOrder - order

/-- `merge_chunk`. -/
def mergeChunk (m : Mem) (g chunkOrigin : ℕ) : Except Fault (ℕ × Mem) :=
  let order := order m chunkOrigin
  if chunkOrigin = 0 then .error (.bugOn "chunk_origin == NULL")
  else if ¬ IsPage m g chunkOrigin ∨ buddyMaxOrder ≤ order then .error .wild
  else if nrFree m (freeListAt g order) = 0 ∨ order = buddyMaxOrder - 1 then .ok (chunkOrigin, m)
  else
    let chunkMerge :=
      virtToPage m g (roundDown (pageToVirt m g chunkOrigin) (buddyChunkSize (order + 1)))
    let chunkBuddy :=
      if chunkMerge = chunkOrigin then chunkOrigin + sizeofPage * buddyChunkPagesCount order
      else chunkMerge
    if chunkBuddy = 0 then .ok (chunkOrigin, m)
    else if ¬ IsPage m g chunkBuddy then .error .wild
    else if allocated m chunkBuddy = 1 ∨ MemRegion.order m chunkBuddy ≠ order then
      .ok (chunkOrigin, m)
    else
      pageInList m g chunkBuddy (freeListAt g order) >>= fun inList =>
      if inList = false then .error (.bugOn "!page_in_list(chunk_buddy, &free_list->free_list)")
      else mergeChunk (setOrder (delFree m g order chunkBuddy) chunkMerge (order + 1)) g chunkMerge
termination_by buddyMaxOrder - order m chunkOrigin
decreasing_by
  rename_i hpage hlast _ _ _
  rw [not_or] at hpage hlast
  have h1 : ¬ buddyMaxOrder ≤ MemRegion.order m chunkOrigin := hpage.2
  have h2 : ¬ MemRegion.order m chunkOrigin = buddyMaxOrder - 1 := hlast.2
  rw [order_setOrder]
  simp only [buddyMaxOrder] at h1 h2 ⊢
  omega

/-- `buddy_free_pages`. -/
def buddyFreePages (m : Mem) (g page : ℕ) : Except Fault Mem :=
  if ¬ IsPage m g page then .error .wild
  else
    mergeChunk (setAllocated m page 0) g page >>= fun r =>
    if ¬ IsPage r.2 g r.1 ∨ buddyMaxOrder ≤ order r.2 r.1 then .error .wild
    else .ok (addFree r.2 g (order r.2 r.1) r.1)

/-- `buddy_get_pages`. -/
def buddyGetPages (m : Mem) (g order : ℕ) : Except Fault (ℕ × Mem) :=
  if buddyMaxOrder ≤ order then .error .wild
  else
    (if nrFree m (freeListAt g order) = 0 then splitChunk m g (order + 1)
      else takeFirst m g order "page == NULL") >>= fun r =>
    if r.1 = 0 then .ok (0, r.2)
    else if ¬ IsPage r.2 g r.1 then .error .wild
    else if allocated r.2 r.1 = 1 then .error (.kerror "page %p has been allocated\n")
    else if MemRegion.order r.2 r.1 ≠ order then .error (.bugOn "page->order != order")
    else .ok (r.1, setAllocated r.2 r.1 1)

/-- The body of `populate_page`'s loops. -/
def populateChunk (m : Mem) (g order page : ℕ) : Mem :=
  let m := setSlab (setAllocated (setOrder m page order) page 0) page 0
  let m := setNrFree m (freeListAt g order) (nrFree m (freeListAt g order) + 1)
  listAdd memLinks m page (freeListAt g order)

/-- The inner loop of `populate_page` that fills forward, up to the descriptor at `last`. -/
def fillForward (m : Mem) (g order page last : ℕ) : ℕ × Mem :=
  if page + sizeofPage * buddyChunkPagesCount order - sizeofPage < last then
    fillForward (populateChunk m g order page) g order
      (page + sizeofPage * buddyChunkPagesCount order) last
  else (page, m)
termination_by last - page
decreasing_by
  have : 0 < buddyChunkPagesCount order := Nat.two_pow_pos order
  simp only [sizeofPage] at *
  omega

/-- The loop of `populate_page` over `[first_aligned_page, first_page + npages)`. -/
def populateForward (m : Mem) (g : ℕ) : (n : ℕ) → (page last : ℕ) → Mem
  | 0, _, _ => m
  | n + 1, page, last =>
    populateForward (fillForward m g n page last).2 g n (fillForward m g n page last).1 last

/-- The inner loop of `populate_page` that fills backward, down to the descriptor at `first`. -/
def fillBackward (m : Mem) (g order page first : ℕ) : ℕ × Mem :=
  if first + sizeofPage * buddyChunkPagesCount order ≤ page then
    fillBackward (populateChunk m g order (page - sizeofPage * buddyChunkPagesCount order)) g order
      (page - sizeofPage * buddyChunkPagesCount order) first
  else (page, m)
termination_by page
decreasing_by
  have : 0 < buddyChunkPagesCount order := Nat.two_pow_pos order
  simp only [sizeofPage] at *
  omega

/-- The loop of `populate_page` over `[first_page, first_aligned_page)`. -/
def populateBackward (m : Mem) (g : ℕ) : (n : ℕ) → (page first : ℕ) → Mem
  | 0, _, _ => m
  | n + 1, page, first =>
    populateBackward (fillBackward m g n page first).2 g n (fillBackward m g n page first).1 first

/-- `populate_page`. The loops start with a store through `first_aligned_page`, see
`Buddy.populateFrom`. -/
def populatePage (m : Mem) (g firstPage npages : ℕ) : Except Fault Mem :=
  let aligned :=
    virtToPage m g (roundUp (pageToVirt m g firstPage) (buddyChunkSize (buddyMaxOrder - 1)))
  let firstAlignedPage := if firstPage + sizeofPage * npages ≤ aligned then firstPage else aligned
  if firstAlignedPage = 0 then .error .wild
  else
    let m := populateForward m g buddyMaxOrder firstAlignedPage (firstPage + sizeofPage * npages)
    .ok (populateBackward m g (buddyMaxOrder - 1) firstAlignedPage firstPage)

/-- The loop of `init_buddy` over the free lists. -/
def initFreeLists (m : Mem) (g : ℕ) : ℕ → Mem
  | 0 => m
  | n + 1 => initListHead memLinks (setNrFree (initFreeLists m g n) (freeListAt g n) 0) (freeListAt g n)

/-- The part of `init_buddy` before `populate_page`, for the address `img_end`. -/
def initRegion (m : Mem) (g imgEnd : ℕ) : Mem :=
  let npages := subWord availablePhysMemEnd (freePhysMemStart imgEnd) / pageSize
  let m := m.store g 8 (physToVirt (freePhysMemStart imgEnd))
  let m := m.store (g + 8) 8 (subWord availablePhysMemEnd (freePhysMemStart imgEnd))
  let m := m.store (g + 16) 8 (physToVirt (availablePhysMemStart imgEnd))
  let m := m.store (g + 24) 8 npages
  let m := m.store (g + 32) 4 0
  let m := initFreeLists m g buddyMaxOrder
  m.memset (pageArrry m g) 0 (npages * sizeofPage)

/-- `init_buddy`. -/
def initBuddy (m : Mem) (g imgEnd : ℕ) : Except Fault Mem :=
  let m := initRegion m g imgEnd
  populatePage m g (pageArrry m g) (subWord availablePhysMemEnd (freePhysMemStart imgEnd) / pageSize)

end KingdoKernel.MemRegion
