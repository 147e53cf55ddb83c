import KingdoKernel.Kmalloc.Basic
import KingdoKernel.Slab.Refine
import KingdoKernel.Slab.Reserve

/-!
# The calls of the allocators on the abstract heap

`mm/kmalloc.c` on heaps: what each call returns and how it changes the heap. `Heap.extents` are the
memory blocks callers hold, those of the slabs and those of whole pages; a call adds one of them, takes
one away or changes nothing (`Heap.Took`, `Heap.Put`). The size of an extent is the smallest size class
that fits the request (`sizeClass`).
-/

namespace KingdoKernel
open Slab Buddy Tiles

/-! ## Size classes -/

/-- The exponent of the smallest size class, of 64 bytes and more, that fits `size`. -/
def sizeClass (size : ℕ) : ℕ := max 6 (Nat.clog 2 size)

/-- `sizeClass` is what it says. -/
lemma sizeClass_isLeast {size : ℕ} (h : size ≤ 2 ^ 22) :
    IsLeast {c | (∃ k, 6 ≤ k ∧ k ≤ 22 ∧ c = 2 ^ k) ∧ size ≤ c} (2 ^ sizeClass size) := by
  refine ⟨⟨⟨sizeClass size, le_max_left _ _, ?_, rfl⟩, ?_⟩, ?_⟩
  · exact max_le (by norm_num) (Nat.clog_le_of_le_pow h)
  · exact (Nat.le_pow_clog (by norm_num) size).trans
      (Nat.pow_le_pow_right (by norm_num) (le_max_right _ _))
  · rintro c ⟨⟨k, h6, -, rfl⟩, hk⟩
    exact Nat.pow_le_pow_right (by norm_num) (max_le h6 (Nat.clog_le_of_le_pow hk))

/-- The loop of `size_to_slab_order` computes a rounded-up logarithm. -/
lemma slabOrderLoop_eq (size j : ℕ) : slabOrderLoop size j = max j (Nat.clog 2 size) := by
  induction hn : Nat.clog 2 size - j generalizing j with
  | zero =>
    have hle : size ≤ 2 ^ j :=
      (Nat.le_pow_clog (by norm_num) size).trans (Nat.pow_le_pow_right (by norm_num) (by omega))
    rw [slabOrderLoop, if_neg (show ¬ slabOrderToSize j < size from not_lt.2 hle)]
    omega
  | succ n ih =>
    have hlt : 2 ^ j < size := (Nat.lt_clog_iff_pow_lt (by norm_num)).1 (by omega)
    have e : slabOrderLoop size j = slabOrderLoop size (j + 1) := by
      rw [slabOrderLoop]
      exact if_pos hlt
    rw [e, ih (j + 1) (by omega)]
    omega

/-- The loop of `size_to_page_order` computes a rounded-up logarithm. -/
lemma pageOrderLoop_eq (size j : ℕ) :
    Kernel.pageOrderLoop size j = max j (Nat.clog 2 size - 12) := by
  induction hn : Nat.clog 2 size - 12 - j generalizing j with
  | zero =>
    have hle : size ≤ 2 ^ (12 + j) :=
      (Nat.le_pow_clog (by norm_num) size).trans (Nat.pow_le_pow_right (by norm_num) (by omega))
    rw [Kernel.pageOrderLoop, if_neg (show ¬ buddyChunkSize j < size from not_lt.2 hle)]
    omega
  | succ n ih =>
    have hlt : 2 ^ (12 + j) < size := (Nat.lt_clog_iff_pow_lt (by norm_num)).1 (by omega)
    have e : Kernel.pageOrderLoop size j = Kernel.pageOrderLoop size (j + 1) := by
      rw [Kernel.pageOrderLoop]
      exact if_pos hlt
    rw [e, ih (j + 1) (by omega)]
    omega

/-- The size classes of the slabs. -/
lemma sizeClass_le_eleven {size : ℕ} (h : size ≤ 2048) : 6 ≤ sizeClass size ∧ sizeClass size ≤ 11 :=
  ⟨le_max_left _ _, max_le (by norm_num) (Nat.clog_le_of_le_pow (by norm_num; exact h))⟩

/-- The size classes of the chunks. -/
lemma sizeClass_ge_twelve {size : ℕ} (h1 : 2048 < size) (h2 : size ≤ 2 ^ 22) :
    12 ≤ sizeClass size ∧ sizeClass size ≤ 22 := by
  constructor
  · have : 11 < Nat.clog 2 size := (Nat.lt_clog_iff_pow_lt (by norm_num)).2 (by norm_num; exact h1)
    exact le_max_of_le_right this
  · exact max_le (by norm_num) (Nat.clog_le_of_le_pow h2)

/-- The size of the largest block. -/
lemma slabOrderToSize_max : slabOrderToSize maxSlabBlockOrder = 2048 := rfl

/-- The size of the largest chunk. -/
lemma buddyChunkSize_max : buddyChunkSize (buddyMaxOrder - 1) = 2 ^ 22 := rfl

/-- `size_to_slab_order` finds the size class. -/
lemma sizeToSlabOrder_eq {size : ℕ} (h0 : 0 < size) (h : size ≤ 2048) :
    sizeToSlabOrder size = some (sizeClass size) := by
  rw [sizeToSlabOrder, slabOrderToSize_max, if_neg (by omega), slabOrderLoop_eq]
  rfl

/-- Sizes that the slabs do not serve. -/
lemma sizeToSlabOrder_eq_none {size : ℕ} (h : ¬ (0 < size ∧ size ≤ 2048)) :
    sizeToSlabOrder size = none := by
  rw [sizeToSlabOrder, slabOrderToSize_max, if_pos (by omega)]

/-- `size_to_page_order` finds the size class. -/
lemma sizeToPageOrder_eq {size : ℕ} (h1 : 2048 < size) (h2 : size ≤ 2 ^ 22) :
    Kernel.sizeToPageOrder size = some (sizeClass size - 12) := by
  have hge := sizeClass_ge_twelve h1 h2
  rw [Kernel.sizeToPageOrder, buddyChunkSize_max, if_neg (by omega), pageOrderLoop_eq]
  simp only [sizeClass] at hge ⊢
  congr 1
  omega

namespace Slab.Heap

/-! ## The calls on heaps -/

/-- `slab_alloc`. -/
def slabAlloc (h : Heap) (size : ℕ) : Except Fault (ℕ × Heap) :=
  match sizeToSlabOrder size with
  | none => .ok (0, h)
  | some order => h.alloc order

/-- `slab_free`. -/
def slabFree (h : Heap) (addr : ℕ) : Except Fault Heap :=
  if addr = 0 then .ok h
  else
    match h.buddy.virtToPage addr with
    | none => .error .wild
    | some page => h.free (h.buddy.pages page).slab addr

/-- `get_pages`. -/
def getPages (h : Heap) (order : ℕ) : Except Fault (ℕ × Heap) := do
  let (page, buddy) ← h.buddy.buddyGetPages order
  match page with
  | none => pure (0, ⟨buddy, h.pool⟩)
  | some page => pure (buddy.pageToVirt page, ⟨buddy, h.pool⟩)

/-- `free_pages`. -/
def freePages (h : Heap) (addr : ℕ) : Except Fault Heap :=
  match h.buddy.virtToPage addr with
  | none => .ok h
  | some page => do
    let buddy ← h.buddy.buddyFreePages page
    pure ⟨buddy, h.pool⟩

/-- `kmalloc`. -/
def kmalloc (h : Heap) (size : ℕ) : Except Fault (ℕ × Heap) :=
  if size = 0 then .ok (zeroSizePtr, h)
  else if size ≤ 2048 then h.slabAlloc size
  else if size ≤ 2 ^ 22 then h.getPages (sizeClass size - 12)
  else .ok (0, h)

/-- `kfree`. -/
def kfree (h : Heap) (ptr : ℕ) : Except Fault Heap :=
  if ptr = zeroSizePtr then .ok h
  else
    match h.buddy.virtToPage ptr with
    | none => .ok h
    | some page => if (h.buddy.pages page).slab ≠ 0 then h.slabFree ptr else h.freePages ptr

/-! ## Extents -/

/-- The whole pages in the hands of callers, as memory blocks. -/
def pageExtents (h : Heap) (pages : Set Block) : Set Block :=
  {e | ∃ c ∈ pages, e = ⟨h.buddy.pageToVirt c.start, 12 + c.order⟩}

/-- The memory blocks in the hands of callers. -/
def extents (h : Heap) (pages : Set Block) : Set Block := h.pool.live ∪ h.pageExtents pages

variable {base k s b : ℕ} {h h' : Heap} {pages pages' : Set Block}

/-- The extents of chunks depend on the bounds only. -/
lemma pageExtents_congr (hb : SameBounds h.buddy h'.buddy) (pages : Set Block) :
    h'.pageExtents pages = h.pageExtents pages := by
  simp only [pageExtents, hb.pageToVirt]

/-- The extents with one more chunk. -/
lemma pageExtents_insert (h : Heap) (c : Block) (pages : Set Block) :
    h.pageExtents (insert c pages) =
      insert ⟨h.buddy.pageToVirt c.start, 12 + c.order⟩ (h.pageExtents pages) := by
  ext e
  simp [pageExtents]

/-- A chunk is held when its extent is. -/
lemma mem_pageExtents {c : Block} :
    (⟨h.buddy.pageToVirt c.start, 12 + c.order⟩ : Block) ∈ h.pageExtents pages ↔ c ∈ pages := by
  constructor
  · rintro ⟨d, hd, e⟩
    injection e with e1 e2
    have hs := pageToVirt_injective _ e1
    have ho : c.order = d.order := by omega
    have : c = d := by
      cases c
      cases d
      simp_all
    exact this ▸ hd
  · exact fun hc => ⟨c, hc, rfl⟩

/-- Blocks of slabs are small, whole pages are not. -/
lemma Core.order_live (hc : Core base h pages) {e : Block} (he : e ∈ h.pool.live) :
    6 ≤ e.order ∧ e.order ≤ 11 := by
  obtain ⟨s, σ, hs, ho, -⟩ := he
  have hw := hc.layout.slabs s σ hs
  have h1 := hw.order_ge
  have h2 := hw.order_le
  omega

/-- The extent of a chunk is at least a page. -/
lemma order_pageExtents {e : Block} (he : e ∈ h.pageExtents pages) : 12 ≤ e.order := by
  obtain ⟨c, -, rfl⟩ := he
  exact Nat.le_add_right _ _

/-- One more extent is in the hands of callers. -/
structure Took (base : ℕ) (h : Heap) (pages : Set Block) (e : Block) (h' : Heap)
    (pages' : Set Block) : Prop where
  inv : Inv base h' pages'
  bounds : SameBounds h.buddy h'.buddy
  ne_zero : e.start ≠ 0
  fresh : e ∉ h.extents pages
  extents : h'.extents pages' = insert e (h.extents pages)

/-- One extent has come back. -/
structure Put (base : ℕ) (h : Heap) (pages : Set Block) (e : Block) (h' : Heap)
    (pages' : Set Block) : Prop where
  inv : Inv base h' pages'
  bounds : SameBounds h.buddy h'.buddy
  extents : h'.extents pages' = h.extents pages \ {e}

/-- A block taken from a slab is an extent taken from the heap. -/
lemma Gave.took (hg : Gave base h pages k b h') (h11 : k ≤ 11) :
    Took base h pages ⟨b, k⟩ h' pages := by
  refine ⟨hg.inv, hg.bounds, hg.ne_zero, ?_, ?_⟩
  · rintro (he | he)
    · exact hg.fresh he
    · have := order_pageExtents he
      simp only [] at this
      omega
  · rw [extents, extents, hg.live, pageExtents_congr hg.bounds, Set.insert_union]

/-- `get_pages`. -/
lemma getPages_spec (hi : Inv base h pages) (hk : k ≤ 10) :
    h.getPages k = .ok (0, h) ∨
    ∃ p h' pages', h.getPages k = .ok (p, h') ∧ Took base h pages ⟨p, 12 + k⟩ h' pages' := by
  rcases buddyGetPages_spec (show k < buddyMaxOrder by simp only [buddyMaxOrder]; omega) hi.buddy with
    ⟨e, -⟩ | ⟨c, b1, e, hf, hH, hinv, -⟩
  · left
    rw [getPages, e]
    rfl
  · right
    rw [← Set.union_insert] at hinv
    have hapart : ∀ d ∈ insert (⟨c, k⟩ : Block) pages, d ∉ h.slabChunks := by
      rintro d (rfl | hd) hdS
      · exact hH (.inl hdS)
      · exact hi.apart d hd hdS
    have hcore := hi.toCore.withBuddy hf hinv hapart
    have hfresh : (⟨b1.pageToVirt c, 12 + k⟩ : Block) ∉ h.extents pages := by
      rw [hf.pageToVirt]
      rintro (he | he)
      · have := (hi.toCore.order_live he).2
        simp only [] at this
        omega
      · exact hH (.inr (mem_pageExtents (c := ⟨c, k⟩).1 he))
    have hpos : b1.pageToVirt c ≠ 0 := by
      have := hi.above
      rw [hf.pageToVirt, pageToVirt]
      omega
    refine ⟨b1.pageToVirt c, ⟨b1, h.pool⟩, insert ⟨c, k⟩ pages, ?_, ⟨hcore, hi.settled⟩,
      hf.sameBounds, hpos, hfresh, ?_⟩
    · rw [getPages, e]
      rfl
    · rw [extents, pageExtents_insert, Set.union_insert, extents,
        pageExtents_congr (h := h) hf.sameBounds]

/-- The page of an address in a slab names the slab. -/
lemma Core.slab_of_mem (hc : Core base h pages) {σ : Header} (hs : h.pool.slab s = some σ) {x : ℕ}
    (h1 : s ≤ x) (h2 : x < s + 2 ^ 17) :
    ∃ page, h.buddy.virtToPage x = some page ∧ (h.buddy.pages page).slab = s := by
  obtain ⟨p, rfl, hm, hend, -⟩ := hc.chunk hs
  have hsz := hc.buddy.geo.size
  have hv : h.buddy.pageToVirt p = h.buddy.startAddr + p * 4096 := rfl
  refine ⟨_, hc.buddy.geo.virtToPage_of_mem (by omega) (by omega), hc.owned _ hm _ ⟨?_, ?_⟩⟩
  · show p ≤ _
    omega
  · show _ < p + 2 ^ 5
    omega

/-- The page descriptors name slabs only. -/
lemma Core.slab_of_descriptor (hc : Core base h pages) {p : ℕ} (hp : p < h.buddy.pageNum)
    (hs : (h.buddy.pages p).slab = s) (h0 : s ≠ 0) :
    ∃ σ, h.pool.slab s = some σ ∧ s ≤ h.buddy.pageToVirt p ∧
      h.buddy.pageToVirt p + 4096 ≤ s + 2 ^ 17 := by
  by_cases hno : ∀ c ∈ h.slabChunks, p ∉ c.pages
  · exact absurd (hs.symm.trans (hc.unowned p hp hno)) h0
  · push Not at hno
    obtain ⟨⟨q, k⟩, hcS, hpc⟩ := hno
    obtain ⟨rfl, σ, hσ⟩ := id hcS
    have hown := hc.owned _ hcS p hpc
    rw [hs] at hown
    obtain ⟨h1, h2⟩ := hpc
    simp only [] at h1 h2
    refine ⟨σ, hown ▸ hσ, ?_, ?_⟩
    · rw [hown]
      simp only [pageToVirt, pageSize]
      omega
    · rw [hown]
      simp only [pageToVirt, pageSize]
      omega

/-- A page of a chunk that is not a slab's names no slab. -/
lemma Core.slab_of_page (hc : Core base h pages) {c : Block} (hcp : c ∈ pages) :
    h.buddy.virtToPage (h.buddy.pageToVirt c.start) = some c.start ∧
      (h.buddy.pages c.start).slab = 0 := by
  have hlt := hc.buddy.start_lt (.inr (.inr hcp))
  refine ⟨hc.buddy.geo.virtToPage_pageToVirt hlt, hc.unowned _ hlt fun d hd hm => ?_⟩
  have e := hc.buddy.tiling.disjoint c (.inr (.inr hcp)) d (.inr (.inl hd)) c.start c.start_mem hm
  exact hc.apart c hcp (e ▸ hd)

/-- `slab_free` of a block in the hands of a caller. -/
lemma slabFree_spec (hi : Inv base h pages) (hb : (⟨b, k⟩ : Block) ∈ h.pool.live) :
    ∃ h', h.slabFree b = .ok h' ∧ Put base h pages ⟨b, k⟩ h' pages := by
  obtain ⟨s, σ, hs, ho, hbs, hbf⟩ := hb
  simp only [] at ho hbs hbf
  have hw := hi.layout.slabs s σ hs
  have hbd := hw.bounds hbs
  have hab := hw.above
  have hpos : 0 < 2 ^ σ.order := by positivity
  obtain ⟨page, hv, hslab⟩ := hi.toCore.slab_of_mem hs (x := b) (by omega) (by omega)
  obtain ⟨h', e, hi', hbds, hlive⟩ := free_spec hi hs hbs hbf
  refine ⟨h', ?_, hi', hbds, ?_⟩
  · rw [slabFree, if_neg (by omega), hv]
    simp only [hslab, e]
  · rw [extents, extents, hlive, pageExtents_congr hbds, ho, Set.union_sdiff_distrib]
    congr 1
    refine (Set.sdiff_singleton_eq_self fun he => ?_).symm
    have := order_pageExtents he
    have := hw.order_le
    simp only [] at *
    omega

/-- `free_pages` of whole pages in the hands of a caller. -/
lemma freePages_spec (hi : Inv base h pages) (hb : (⟨b, k⟩ : Block) ∈ h.pageExtents pages) :
    ∃ h' pages', h.freePages b = .ok h' ∧ Put base h pages ⟨b, k⟩ h' pages' := by
  obtain ⟨c, hc, e⟩ := hb
  have hset : h.slabChunks ∪ pages = insert c (h.slabChunks ∪ (pages \ {c})) := by
    rw [← Set.union_insert, Set.insert_sdiff_singleton, Set.insert_eq_of_mem hc]
  have hnot : c ∉ h.slabChunks ∪ (pages \ {c}) := by
    rintro (hx | hx)
    · exact hi.apart c hc hx
    · exact hx.2 rfl
  have hinv := hi.buddy
  rw [hset] at hinv
  obtain ⟨b1, e1, hf, hinv1⟩ := buddyFreePages_spec (c := c.start) (k := c.order) hinv hnot
  obtain ⟨hv, -⟩ := hi.toCore.slab_of_page hc
  injection e with eb ek
  refine ⟨⟨b1, h.pool⟩, pages \ {c}, ?_, ⟨hi.toCore.withBuddy hf hinv1 fun d hd => hi.apart d hd.1,
    hi.settled⟩, hf.sameBounds, ?_⟩
  · rw [freePages, eb, hv]
    simp only [e1, ok_bind, pure_eq_ok]
  · rw [extents, extents, pageExtents_congr (h := h) hf.sameBounds, Set.union_sdiff_distrib]
    congr 1
    · refine (Set.sdiff_singleton_eq_self fun he => ?_).symm
      have := (hi.toCore.order_live he).2
      simp only [] at this
      omega
    · ext d
      constructor
      · rintro ⟨c', hc', rfl⟩
        refine ⟨⟨c', hc'.1, rfl⟩, fun e' => hc'.2 ?_⟩
        rw [eb, ek] at e'
        have hmem : (⟨h.buddy.pageToVirt c'.start, 12 + c'.order⟩ : Block) ∈ h.pageExtents {c} :=
          ⟨c, rfl, e'⟩
        exact mem_pageExtents.1 hmem
      · rintro ⟨⟨c', hc', rfl⟩, hne⟩
        refine ⟨c', ⟨hc', fun e' => hne ?_⟩, rfl⟩
        rw [eb, ek, show c' = c from e']
        rfl

/-- `kfree` of an extent in the hands of a caller. -/
lemma kfree_spec (hi : Inv base h pages) (hb : (⟨b, k⟩ : Block) ∈ h.extents pages)
    (hz : b ≠ zeroSizePtr) :
    ∃ h' pages', h.kfree b = .ok h' ∧ Put base h pages ⟨b, k⟩ h' pages' ∧
      (k ≤ 11 → pages' = pages) := by
  rw [kfree, if_neg hz]
  rcases hb with hb | hb
  · obtain ⟨h', e, hp⟩ := slabFree_spec hi hb
    obtain ⟨s, σ, hs, ho, hbs, hbf⟩ := hb
    have hw := hi.layout.slabs s σ hs
    have hbd := hw.bounds hbs
    have hab := hw.above
    have hpos : 0 < 2 ^ σ.order := by positivity
    simp only [] at hbd
    obtain ⟨page, hv, hslab⟩ := hi.toCore.slab_of_mem hs (x := b) (by omega) (by omega)
    refine ⟨h', pages, ?_, hp, fun _ => rfl⟩
    rw [hv]
    simp only [hslab]
    rw [if_pos (show s ≠ 0 by omega), e]
  · have hk := order_pageExtents hb
    obtain ⟨h', pages', e, hp⟩ := freePages_spec hi hb
    obtain ⟨c, hc, e'⟩ := hb
    injection e' with eb ek
    obtain ⟨hv, hslab⟩ := hi.toCore.slab_of_page hc
    refine ⟨h', pages', ?_, hp, fun h => absurd hk (by simp only []; omega)⟩
    rw [← eb] at hv
    rw [hv]
    simp only [hslab]
    rw [if_neg (not_not.2 rfl), e]

/-- `slab_alloc` of a size it serves. -/
lemma slabAlloc_spec (hi : Inv base h pages) {size : ℕ} (h0 : 0 < size) (h1 : size ≤ 2048) :
    (h.slabAlloc size = .ok (0, h) ∧ h.buddy.Exhausted 5) ∨
    ∃ p h', h.slabAlloc size = .ok (p, h') ∧ Took base h pages ⟨p, sizeClass size⟩ h' pages := by
  obtain ⟨h6, h11⟩ := sizeClass_le_eleven h1
  rw [slabAlloc, sizeToSlabOrder_eq h0 h1]
  rcases alloc_spec hi h6 h11 with e | ⟨p, h', e, hg⟩
  · exact .inl e
  · exact .inr ⟨p, h', e, hg.took h11⟩

/-- `kmalloc` of a size that is served. -/
lemma kmalloc_spec (hi : Inv base h pages) {size : ℕ} (h0 : 0 < size) (h1 : size ≤ 2 ^ 22) :
    h.kmalloc size = .ok (0, h) ∨
    ∃ p h' pages', h.kmalloc size = .ok (p, h') ∧
      Took base h pages ⟨p, sizeClass size⟩ h' pages' ∧ (size ≤ 2048 → pages' = pages) := by
  rw [kmalloc, if_neg (by omega)]
  by_cases h2 : size ≤ 2048
  · rw [if_pos h2]
    rcases slabAlloc_spec hi h0 h2 with ⟨e, -⟩ | ⟨p, h', e, ht⟩
    · exact .inl e
    · exact .inr ⟨p, h', pages, e, ht, fun _ => rfl⟩
  · rw [if_neg h2, if_pos h1]
    obtain ⟨h12, h22⟩ := sizeClass_ge_twelve (by omega) h1
    rcases getPages_spec hi (k := sizeClass size - 12) (by omega) with e | ⟨p, h', pages', e, ht⟩
    · exact .inl e
    · refine .inr ⟨p, h', pages', e, ?_, fun h => absurd h h2⟩
      rw [Nat.add_sub_cancel' h12] at ht
      exact ht

/-! ## Where extents lie -/

/-- The page of a byte of a tile. -/
lemma page_mem {c : Block} {x : ℕ}
    (h1 : h.buddy.pageToVirt c.start ≤ x) (h2 : x < h.buddy.pageToVirt c.start + 2 ^ (12 + c.order)) :
    (x - h.buddy.startAddr) / 4096 ∈ c.pages := by
  have hv : h.buddy.pageToVirt c.start = h.buddy.startAddr + c.start * 4096 := rfl
  rw [pow_add] at h2
  constructor
  · omega
  · omega

/-- Every extent lies in one tile of the buddy allocator. -/
lemma Core.host (hc : Core base h pages) {e : Block} (he : e ∈ h.extents pages) :
    ∃ c ∈ h.slabChunks ∪ pages, h.buddy.pageToVirt c.start ≤ e.start ∧
      e.start + 2 ^ e.order ≤ h.buddy.pageToVirt c.start + 2 ^ (12 + c.order) ∧
      (e ∈ h.pool.live ↔ c ∈ h.slabChunks) := by
  rcases he with he | he
  · obtain ⟨s, σ, hs, ho, hb, -⟩ := id he
    obtain ⟨p, rfl, hm, -, -⟩ := hc.chunk hs
    have hbd := (hc.layout.slabs _ σ hs).bounds hb
    have hpos : 0 < 2 ^ σ.order := by positivity
    refine ⟨⟨p, 5⟩, .inl hm, ?_, ?_, fun _ => hm, fun _ => he⟩
    · show h.buddy.pageToVirt p ≤ _
      omega
    · rw [ho]
      exact hbd.2
  · have h12 := order_pageExtents he
    obtain ⟨c, hcp, rfl⟩ := id he
    refine ⟨c, .inr hcp, le_rfl, le_rfl, fun hl => ?_, fun hs => absurd hs (hc.apart c hcp)⟩
    have := (hc.order_live hl).2
    omega

/-- Two extents with a byte in common lie in the same tile. -/
lemma Core.host_eq (hc : Core base h pages) {c d : Block} (hcm : c ∈ h.slabChunks ∪ pages)
    (hdm : d ∈ h.slabChunks ∪ pages) {x : ℕ}
    (hx : h.buddy.pageToVirt c.start ≤ x ∧ x < h.buddy.pageToVirt c.start + 2 ^ (12 + c.order))
    (hy : h.buddy.pageToVirt d.start ≤ x ∧ x < h.buddy.pageToVirt d.start + 2 ^ (12 + d.order)) :
    c = d :=
  hc.buddy.tiling.disjoint c (.inr hcm) d (.inr hdm) _ (page_mem hx.1 hx.2) (page_mem hy.1 hy.2)

/-- Extents do not overlap. -/
lemma Core.extents_disjoint (hc : Core base h pages) {e f : Block} (he : e ∈ h.extents pages)
    (hf : f ∈ h.extents pages) (hne : e ≠ f) {x : ℕ} (hx : x ∈ e.pages) : x ∉ f.pages := by
  intro hx'
  obtain ⟨c, hcm, hc1, hc2, hcl⟩ := hc.host he
  obtain ⟨d, hdm, hd1, hd2, hdl⟩ := hc.host hf
  obtain ⟨hx1, hx2⟩ := hx
  obtain ⟨hy1, hy2⟩ := id hx'
  have hcd := hc.host_eq hcm hdm (x := x) ⟨by omega, by omega⟩ ⟨by omega, by omega⟩
  subst hcd
  rcases he with he | he
  · exact hc.layout.live_disjoint he (hdl.2 (hcl.1 he)) hne ⟨hx1, hx2⟩ hx'
  · rcases hf with hf | hf
    · have h1 := (hc.order_live (hcl.2 (hdl.1 hf))).2
      have h2 := order_pageExtents he
      omega
    · obtain ⟨c1, hc1m, rfl⟩ := he
      obtain ⟨d1, hd1m, rfl⟩ := hf
      exact hne (by rw [hc.host_eq (.inr hc1m) (.inr hd1m) ⟨hx1, hx2⟩ ⟨hy1, hy2⟩])

/-- Extents are not the allocator's bytes. -/
lemma Core.extents_not_owns (hc : Core base h pages) {e : Block} (he : e ∈ h.extents pages) {x : ℕ}
    (hx : x ∈ e.pages) : ¬ h.pool.Owns base x := by
  rcases id he with hl | hp
  · exact hc.layout.not_owns hl hx
  · obtain ⟨c, hcp, rfl⟩ := hp
    obtain ⟨hx1, hx2⟩ := hx
    simp only [] at hx1 hx2
    rintro (ho | ⟨s, σ, hs, ho⟩)
    · have hab := hc.above
      have hv : h.buddy.startAddr ≤ h.buddy.pageToVirt c.start := Nat.le_add_right _ _
      omega
    · obtain ⟨p, rfl, hm, -, -⟩ := hc.chunk hs
      have hin := (hc.layout.slabs _ σ hs).owned_bounds ho
      have e' := hc.host_eq (.inr hcp) (.inl hm) ⟨hx1, hx2⟩ hin
      exact hc.apart c hcp (e' ▸ hm)

/-- Extents lie in the managed region, at multiples of their size. -/
lemma Core.extents_place (hc : Core base h pages) {e : Block} (he : e ∈ h.extents pages) :
    h.buddy.startAddr ≤ e.start ∧
      e.start + 2 ^ e.order ≤ h.buddy.startAddr + h.buddy.size ∧ 2 ^ e.order ∣ e.start := by
  obtain ⟨c, hcm, hc1, hc2, -⟩ := hc.host he
  have hend := hc.buddy.end_le (.inr hcm)
  have hsz := hc.buddy.geo.size
  have hv : h.buddy.pageToVirt c.start = h.buddy.startAddr + c.start * 4096 := rfl
  rw [pow_add] at hc2
  refine ⟨by omega, by omega, ?_⟩
  rcases he with ⟨s, σ, hs, ho, hb, -⟩ | ⟨d, hd, rfl⟩
  · have hw := hc.layout.slabs s σ hs
    obtain ⟨i, -, -, hi⟩ := mem_blocks.1 hb
    rw [ho, hi]
    refine (Dvd.dvd.trans ?_ hw.aligned).add (Dvd.intro_left i rfl)
    exact pow_dvd_pow 2 (hw.order_le.trans (by norm_num))
  · exact hc.buddy.geo.aligned_iff.1 (hc.buddy.tiling.aligned d (.inr (.inr hd)))

/-- No other extent starts in the slab of `b`. -/
def IsLast (h : Heap) (pages : Set Block) (b : ℕ) : Prop :=
  ∀ e ∈ h.extents pages, e.start / 2 ^ 17 = b / 2 ^ 17 → e.start = b

/-- The block `b` of a slab is the last one in the hands of a caller exactly when the others are free. -/
lemma Core.isLast_iff (hc : Core base h pages) {σ : Header} (hs : h.pool.slab s = some σ)
    (hb : b ∈ blocks s σ.order) (hf : b ∉ σ.free) :
    h.IsLast pages b ↔ σ.free.length + 2 = 2 ^ (17 - σ.order) := by
  have hw := hc.layout.slabs s σ hs
  have hge := two_pow_sub_ge hw.order_le
  have hal := hw.aligned
  have hpos : 0 < 2 ^ σ.order := by positivity
  have hin : ∀ {c}, c ∈ blocks s σ.order → c / 2 ^ 17 = s / 2 ^ 17 := by
    intro c hcb
    have := hw.bounds hcb
    omega
  have hnd : (b :: σ.free).Nodup := List.nodup_cons.2 ⟨hf, hw.nodup⟩
  have hsub : ∀ c ∈ b :: σ.free, c ∈ blocks s σ.order := by
    intro c hcb
    rcases List.mem_cons.1 hcb with rfl | hcb
    · exact hb
    · exact hw.blocks c hcb
  have hsp := List.subperm_of_subset hnd hsub
  have hle := hsp.length_le
  rw [List.length_cons, length_blocks] at hle
  constructor
  · intro hlast
    have hsup : ∀ c ∈ blocks s σ.order, c ∈ b :: σ.free := by
      intro c hcb
      by_cases hcf : c ∈ σ.free
      · exact List.mem_cons_of_mem _ hcf
      · have e := hlast ⟨c, σ.order⟩ (.inl ⟨s, σ, hs, rfl, hcb, hcf⟩) ((hin hcb).trans (hin hb).symm)
        exact List.mem_cons.2 (.inl e)
    have hge' := (List.subperm_of_subset (nodup_blocks s σ.order) hsup).length_le
    rw [List.length_cons, length_blocks] at hge'
    omega
  · rintro hlen ⟨c, j⟩ he heq
    have hperm := hsp.perm_of_length_le (by rw [List.length_cons, length_blocks]; omega)
    rw [hin hb] at heq
    simp only [] at heq ⊢
    rcases he with ⟨t, τ, ht, -, hct, hcf⟩ | ⟨d, hd, e⟩
    · have hwt := hc.layout.slabs t τ ht
      have hbd := hwt.bounds hct
      have hpos' : 0 < 2 ^ τ.order := by positivity
      simp only [] at hct hcf hbd
      have hts : t = s := by
        have hal' := hwt.aligned
        omega
      subst hts
      rw [hs] at ht
      cases ht
      rcases List.mem_cons.1 (hperm.mem_iff.2 hct) with rfl | hc'
      · rfl
      · exact absurd hc' hcf
    · obtain ⟨p, rfl, hm, -, -⟩ := hc.chunk hs
      injection e with e1 e2
      have hposd : 0 < 2 ^ (12 + d.order) := by positivity
      have hin' : h.buddy.pageToVirt p ≤ c ∧ c < h.buddy.pageToVirt p + 2 ^ (12 + 5) := by omega
      have e' := hc.host_eq (.inr hd) (.inl hm) (x := c) ⟨by omega, by omega⟩ hin'
      exact absurd (e' ▸ hm) (hc.apart d hd)

/-! ## Slabs in reserve -/

/-- The slab allocator serves a request of `size` bytes with blocks of order `k`. -/
def Serves (size k : ℕ) : Prop := 0 < size ∧ size ≤ 2048 ∧ sizeClass size = k

instance (size k : ℕ) : Decidable (Serves size k) := inferInstanceAs (Decidable (_ ∧ _ ∧ _))

/-- `get_pages` does not change the slabs. -/
lemma getPages_pool (e : h.getPages k = .ok (b, h')) : h'.pool = h.pool := by
  obtain ⟨⟨page, bud⟩, -, e⟩ := bind_eq_ok.1 e
  cases page with
  | none =>
    cases e
    rfl
  | some page =>
    cases e
    rfl

/-- `free_pages` does not change the slabs. -/
lemma freePages_pool (e : h.freePages b = .ok h') : h'.pool = h.pool := by
  unfold freePages at e
  cases ev : h.buddy.virtToPage b with
  | none =>
    rw [ev] at e
    cases e
    rfl
  | some page =>
    rw [ev] at e
    obtain ⟨bud, -, e⟩ := bind_eq_ok.1 e
    cases e
    rfl

/-- Which slabs are in reserve after `slab_alloc`. -/
lemma slabAlloc_pristine (hi : Inv base h pages) {size : ℕ} (e : h.slabAlloc size = .ok (b, h'))
    (j : ℕ) : h'.pool.Pristine j ↔ if Serves size j then h.Refills j else h.pool.Pristine j := by
  unfold slabAlloc at e
  by_cases hsz : 0 < size ∧ size ≤ 2048
  · obtain ⟨h6, h11⟩ := sizeClass_le_eleven hsz.2
    rw [sizeToSlabOrder_eq hsz.1 hsz.2] at e
    obtain ⟨h1, h2⟩ := alloc_pristine hi h6 h11 e
    by_cases hj : j = sizeClass size
    · rw [if_pos ⟨hsz.1, hsz.2, hj.symm⟩, hj]
      exact h1
    · rw [if_neg fun hs => hj hs.2.2.symm]
      exact h2 j hj
  · rw [sizeToSlabOrder_eq_none hsz] at e
    cases e
    rw [if_neg fun hs => hsz ⟨hs.1, hs.2.1⟩]

/-- Which slabs are pristine after `kmalloc`. -/
lemma kmalloc_pristine (hi : Inv base h pages) {size : ℕ} (e : h.kmalloc size = .ok (b, h')) (j : ℕ) :
    h'.pool.Pristine j ↔ if Serves size j then h.Refills j else h.pool.Pristine j := by
  unfold kmalloc at e
  split_ifs at e with h0 h1 h2
  · cases e
    rw [if_neg fun hs => by have := hs.1; omega]
  · exact slabAlloc_pristine hi e j
  · rw [getPages_pool e, if_neg fun hs => h1 hs.2.1]
  · cases e
    rw [if_neg fun hs => h1 hs.2.1]

/-- `slab_free` does not change which slabs are in reserve. -/
lemma slabFree_pristine (hi : Inv base h pages) (hb : (⟨b, k⟩ : Block) ∈ h.pool.live)
    (e : h.slabFree b = .ok h') (j : ℕ) : h'.pool.Pristine j ↔ h.pool.Pristine j := by
  obtain ⟨s, σ, hs, -, hbs, hbf⟩ := hb
  have hw := hi.layout.slabs s σ hs
  have hbd := hw.bounds hbs
  have hab := hw.above
  have hpos : 0 < 2 ^ σ.order := by positivity
  simp only [] at hbd
  obtain ⟨page, hv, hslab⟩ := hi.toCore.slab_of_mem hs (x := b) (by omega) (by omega)
  rw [slabFree, if_neg (by omega), hv] at e
  simp only [hslab] at e
  exact free_pristine hi hs hbs hbf e j

/-- `kfree` makes no slab pristine. -/
lemma kfree_pristine (hi : Inv base h pages) (hb : (⟨b, k⟩ : Block) ∈ h.extents pages)
    (e : h.kfree b = .ok h') (j : ℕ) : h'.pool.Pristine j ↔ h.pool.Pristine j := by
  unfold kfree at e
  split_ifs at e with hz
  · cases e
    rfl
  · rcases hb with hb | hb
    · cases hv : h.buddy.virtToPage b with
      | none =>
        rw [hv] at e
        cases e
        rfl
      | some page =>
        rw [hv] at e
        simp only [] at e
        split_ifs at e
        · exact slabFree_pristine hi hb e j
        · rw [freePages_pool e]
    · obtain ⟨c, hc, e'⟩ := hb
      injection e' with eb ek
      obtain ⟨hv, hslab⟩ := hi.toCore.slab_of_page hc
      rw [← eb] at hv
      rw [hv] at e
      simp only [hslab] at e
      rw [if_neg (not_not.2 rfl)] at e
      rw [freePages_pool e]

end Slab.Heap

end KingdoKernel
