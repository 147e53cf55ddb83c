import KingdoKernel.Buddy.Run

/-!
# The region that `init_buddy` sets up

* `init_lists_exact`: the free lists that `init_buddy` leaves partition the managed pages, and
  `page_to_virt` and `virt_to_page` translate between descriptors and addresses.
* `descriptors_fit_iff`: the descriptor array ends before the managed memory unless the number of
  available pages leaves the remainder 1 modulo 129. `init_buddy` reserves room for as many descriptors
  as there are units of a page and its descriptor, 129 pages holding 128 such units; a single page left
  over needs no more room by that count, but is managed all the same.
* `populate_page_faults`: a region without a page at a multiple of 4 MB is never populated. The test for
  this case compares the answer of `virt_to_page`, which is `NULL` there and so never beyond the region.
-/

namespace KingdoKernel.Buddy
open Tiles Tiles.Block

/-! ## The initial free lists -/

/-- The free lists of a region nothing of which is allocated, and the translations of its pages. -/
structure Initial (s : Buddy) : Prop where
  /-- every page lies in exactly one listed chunk -/
  partition : ∀ p < s.pageNum, ∃! b : Block, b ∈ s.freeBlocks ∧ p ∈ b.pages
  /-- and listed chunks consist of such pages -/
  inside : ∀ b ∈ s.freeBlocks, b.start + 2 ^ b.order ≤ s.pageNum
  /-- a chunk is listed once, aligned to its size, and its descriptor says so -/
  listed : ∀ k ≤ 10, (s.freeLists k).freeList.Nodup ∧ ∀ p ∈ (s.freeLists k).freeList,
    2 ^ (12 + k) ∣ s.pageToVirt p ∧ s.pages p = ⟨0, k, 0⟩
  /-- `nr_free` is the length of its list -/
  counted : ∀ k ≤ 10, (s.freeLists k).nrFree = (s.freeLists k).freeList.length
  /-- nothing can be merged -/
  apart : ∀ k < 10, ∀ p ∈ (s.freeLists k).freeList, ∀ q ∈ (s.freeLists k).freeList,
    ¬ Buddies s k p q
  /-- all memory is free -/
  total : s.getFreeMemSizeFromBuddy = s.size
  /-- descriptors stand for the page starts of the region -/
  toVirt : ∀ p < s.pageNum, s.startAddr ≤ s.pageToVirt p ∧ s.pageToVirt p < s.startAddr + s.size ∧
    pageSize ∣ s.pageToVirt p ∧ s.virtToPage (s.pageToVirt p) = some p
  /-- and page starts for descriptors -/
  toPage : ∀ a, s.startAddr ≤ a → a < s.startAddr + s.size → pageSize ∣ a →
    ∃ p < s.pageNum, s.virtToPage a = some p ∧ s.pageToVirt p = a
  /-- as the other addresses of a page do -/
  within : ∀ p < s.pageNum, ∀ a, s.pageToVirt p ≤ a → a < s.pageToVirt p + pageSize →
    s.virtToPage a = some p
  /-- addresses outside have no descriptor -/
  outside : ∀ a, a < s.startAddr ∨ s.startAddr + s.size ≤ a → s.virtToPage a = none

section Translation

variable {s : Buddy} (hg : Geometry s)
include hg

/-- The address of a page is in the region and a multiple of the page size. -/
lemma Geometry.pageToVirt_mem {p : ℕ} (hp : p < s.pageNum) :
    s.startAddr ≤ s.pageToVirt p ∧ s.pageToVirt p < s.startAddr + s.size ∧
      pageSize ∣ s.pageToVirt p := by
  have hst := hg.start
  have hsz := hg.size
  have e : s.pageToVirt p = s.startAddr + p * 4096 := rfl
  have e' : pageSize = 4096 := rfl
  refine ⟨by omega, by omega, ?_⟩
  rw [e, e']
  omega

/-- Every address of a page has its descriptor. -/
lemma Geometry.virtToPage_within {p a : ℕ} (hp : p < s.pageNum) (h1 : s.pageToVirt p ≤ a)
    (h2 : a < s.pageToVirt p + pageSize) : s.virtToPage a = some p := by
  have hsz := hg.size
  have e : s.pageToVirt p = s.startAddr + p * 4096 := rfl
  have e' : pageSize = 4096 := rfl
  rw [hg.virtToPage_of_mem (by omega) (by omega)]
  congr 1
  omega

/-- A page start is the address of its descriptor's page. -/
lemma Geometry.pageToVirt_surj {a : ℕ} (h1 : s.startAddr ≤ a) (h2 : a < s.startAddr + s.size)
    (hd : pageSize ∣ a) : ∃ p < s.pageNum, s.virtToPage a = some p ∧ s.pageToVirt p = a := by
  have hst := hg.start
  have hsz := hg.size
  have e' : pageSize = 4096 := rfl
  rw [e'] at hd
  refine ⟨(a - s.startAddr) / 4096, by omega, hg.virtToPage_of_mem h1 h2, ?_⟩
  show s.startAddr + (a - s.startAddr) / 4096 * 4096 = a
  omega

end Translation

/-- For every image that leaves a region with an aligned page, `init_buddy` lists every page once. -/
theorem init_lists_exact {imgEnd : ℕ} (h : HasAlignedPage (initRegion imgEnd)) :
    ∃ s, initBuddy imgEnd = .ok s ∧ SameBounds (initRegion imgEnd) s ∧ Initial s := by
  obtain ⟨s, e, hi, hb, hslab⟩ := initBuddy_spec h
  have hgood : Good (initRegion imgEnd) ⟨s, []⟩ := by
    obtain ⟨s', e', hg⟩ := initBuddy_good h
    rw [e] at e'
    cases e'
    exact hg
  have hc := hgood.consistent
  refine ⟨s, e, hb, ?_, ?_, ?_, hc.counted, fun k hk p hp q hq => hgood.not_buddies hk hp hq, ?_, ?_,
    fun a => hi.geo.pageToVirt_surj, fun p hp a => hi.geo.virtToPage_within hp,
    fun a => hi.geo.virtToPage_of_not_mem⟩
  · intro p hp
    obtain ⟨b, ⟨hb, hpb⟩, hu⟩ := hc.partition p hp
    exact ⟨b, ⟨hb.resolve_right List.not_mem_nil, hpb⟩, fun c hc => hu c ⟨.inl hc.1, hc.2⟩⟩
  · exact fun b hb => hc.inside b (.inl hb)
  · intro k hk
    obtain ⟨hnd, hl⟩ := hc.listed k hk
    refine ⟨hnd, fun p hp => ⟨?_, ?_⟩⟩
    · exact hc.aligned ⟨p, k⟩ (.inl ⟨Nat.lt_succ_of_le hk, hp⟩)
    · obtain ⟨ho, ha⟩ := hl p hp
      have hs := hslab p
      cases ep : s.pages p with
      | mk allocated order slab =>
        simp only [ep] at ho ha hs
        rw [ho, ha, hs]
  · have ht := hc.total
    have hsz := hi.geo.size
    simp only [List.map_nil, List.sum_nil] at ht
    rw [getFreeMemSizeFromBuddy_eq]
    omega
  · intro p hp
    obtain ⟨h1, h2, h3⟩ := hi.geo.pageToVirt_mem hp
    exact ⟨h1, h2, h3, hi.geo.virtToPage_pageToVirt hp⟩

/-- The statement for one image. -/
theorem init_lists_exact_five_mb :
    HasAlignedPage (initRegion (physMemEnd - 0x500000)) ∧
    ∃ s, initBuddy (physMemEnd - 0x500000) = .ok s ∧
      SameBounds (initRegion (physMemEnd - 0x500000)) s ∧ Initial s :=
  ⟨hasAlignedPage_five_mb, init_lists_exact hasAlignedPage_five_mb⟩

/-! ## The descriptor array -/

/-- The array of the descriptors in use ends before the managed memory, and no descriptor has a byte
in it. -/
structure DescriptorsFit (imgEnd : ℕ) : Prop where
  ends : availablePhysMemStart imgEnd + (initRegion imgEnd).pageNum * sizeofPage ≤
    freePhysMemStart imgEnd
  apart : ∀ p < (initRegion imgEnd).pageNum, ∀ i < sizeofPage,
    (initRegion imgEnd).descriptorAddr (some p) + i < (initRegion imgEnd).startAddr ∨
      (initRegion imgEnd).startAddr + (initRegion imgEnd).size ≤
        (initRegion imgEnd).descriptorAddr (some p) + i

/-- The number of whole pages between the image and the end of memory. -/
def availablePages (imgEnd : ℕ) : ℕ := physMemEnd / pageSize - (imgEnd + (pageSize - 1)) / pageSize

/-- 129 pages hold 128 units of a page and its descriptor. -/
lemma units_eq (n : ℕ) : n * 4096 / 4128 = n / 129 * 128 + (n % 129 - 1) := by
  have h := Nat.div_add_mod n 129
  generalize n / 129 = q at *
  generalize hr : n % 129 = r at *
  have hlt : r < 129 := by omega
  subst h
  rw [Nat.div_eq_iff (by norm_num)]
  omega

/-- The pages that the first value of `npages` reserves for descriptors. -/
def reservedPages (imgEnd : ℕ) : ℕ :=
  (availablePages imgEnd / 129 * 128 + (availablePages imgEnd % 129 - 1) + 127) / 128

/-- What `init_buddy` computes, counted in pages. -/
lemma initRegion_pages {imgEnd : ℕ} (h : imgEnd < physMemEnd) :
    availablePages imgEnd ≤ 258048 ∧ reservedPages imgEnd ≤ availablePages imgEnd ∧
    availablePhysMemStart imgEnd = (258048 - availablePages imgEnd) * 4096 ∧
    freePhysMemStart imgEnd =
      (258048 - availablePages imgEnd + reservedPages imgEnd) * 4096 ∧
    (initRegion imgEnd).pageNum = availablePages imgEnd - reservedPages imgEnd := by
  have hP : availablePages imgEnd = 258048 - (imgEnd + 4095) / 4096 := rfl
  have hM : physMemEnd = 258048 * 4096 := rfl
  have hE : availablePhysMemEnd = 258048 * 4096 := by
    norm_num [availablePhysMemEnd, roundDown, physMemEnd, pageSize]
  have hle : availablePages imgEnd ≤ 258048 := by omega
  have hres : reservedPages imgEnd ≤ availablePages imgEnd := by
    rw [reservedPages]
    omega
  have hA : availablePhysMemStart imgEnd = (258048 - availablePages imgEnd) * 4096 := by
    simp only [availablePhysMemStart, roundUp, pageSize]
    omega
  have hF : freePhysMemStart imgEnd =
      (258048 - availablePages imgEnd + reservedPages imgEnd) * 4096 := by
    have hn : subWord availablePhysMemEnd (availablePhysMemStart imgEnd) / 4128 =
        availablePages imgEnd / 129 * 128 + (availablePages imgEnd % 129 - 1) := by
      rw [hE, hA, subWord_of_le (by norm_num) (by omega), ← units_eq]
      congr 1
      omega
    show roundUp (availablePhysMemStart imgEnd + subWord availablePhysMemEnd
      (availablePhysMemStart imgEnd) / 4128 * 32) 4096 = _
    rw [hn, hA, roundUp, reservedPages]
    have hm : availablePages imgEnd / 129 * 128 + (availablePages imgEnd % 129 - 1) ≤ 258048 := by
      omega
    generalize availablePages imgEnd / 129 * 128 + (availablePages imgEnd % 129 - 1) = m at *
    omega
  refine ⟨hle, hres, hA, hF, ?_⟩
  show subWord availablePhysMemEnd (freePhysMemStart imgEnd) / 4096 = _
  rw [hE, hF, subWord_of_le (by norm_num) (by omega)]
  omega

/-- The descriptors of the managed pages fill the reserved pages at most. -/
lemma reserved_enough_iff (imgEnd : ℕ) :
    availablePages imgEnd - reservedPages imgEnd ≤ reservedPages imgEnd * 128 ↔
      availablePages imgEnd % 129 ≠ 1 := by
  have h := Nat.div_add_mod (availablePages imgEnd) 129
  rw [reservedPages]
  generalize availablePages imgEnd / 129 = q at *
  generalize hr : availablePages imgEnd % 129 = r at *
  have hlt : r < 129 := by omega
  rw [← h]
  -- the left-over pages need a reserved page from two on
  have hq : (q * 128 + (r - 1) + 127) / 128 = q + (r - 1 + 127) / 128 := by omega
  rw [hq]
  rcases Nat.lt_or_ge r 2 with hr2 | hr2
  · have hz : (r - 1 + 127) / 128 = 0 := by omega
    rw [hz]
    omega
  · have hz : (r - 1 + 127) / 128 = 1 := by omega
    rw [hz]
    omega

/-- The descriptors in use fit before the managed memory exactly when the available pages do not
leave the remainder 1 modulo 129. -/
theorem descriptors_fit_iff {imgEnd : ℕ} (h : imgEnd < physMemEnd) :
    DescriptorsFit imgEnd ↔ availablePages imgEnd % 129 ≠ 1 := by
  obtain ⟨hle, hres, hA, hF, hN⟩ := initRegion_pages h
  have hM : physMemEnd = 258048 * 4096 := rfl
  have hS : sizeofPage = 32 := rfl
  have hends : availablePhysMemStart imgEnd + (initRegion imgEnd).pageNum * sizeofPage ≤
      freePhysMemStart imgEnd ↔ availablePages imgEnd % 129 ≠ 1 := by
    rw [← reserved_enough_iff, hA, hF, hN, hS]
    omega
  rw [← hends]
  refine ⟨fun hfit => hfit.ends, fun he => ⟨he, fun p hp i hi => .inl ?_⟩⟩
  -- the linear map shifts both ends of the array by the same amount
  have hv : ∀ x ≤ physMemEnd, physToVirt x = x + kbase := fun x hx =>
    Nat.mod_eq_of_lt (by simp only [kbase]; omega)
  have hd : (initRegion imgEnd).descriptorAddr (some p) =
      physToVirt (availablePhysMemStart imgEnd) + p * sizeofPage := rfl
  have hs : (initRegion imgEnd).startAddr = physToVirt (freePhysMemStart imgEnd) := rfl
  rw [hd, hs, hv _ (by omega), hv _ (by omega)]
  rw [hS] at he hi ⊢
  omega

/-- An image of 512 KB at the load address leaves a remainder other than 1. -/
theorem descriptors_fit_iff_one_mb :
    0x100000 < physMemEnd ∧ DescriptorsFit 0x100000 ∧ availablePages 0x100000 % 129 ≠ 1 := by
  have hlt : 0x100000 < physMemEnd := by norm_num [physMemEnd]
  have hne : availablePages 0x100000 % 129 ≠ 1 := by norm_num [availablePages, physMemEnd, pageSize]
  exact ⟨hlt, (descriptors_fit_iff hlt).2 hne, hne⟩

/-- With an image that ends at `0xB0000` the last descriptor lies in the first managed page. -/
theorem last_descriptor_in_managed_memory :
    0xB0000 < physMemEnd ∧ ¬ DescriptorsFit 0xB0000 ∧
      (initRegion 0xB0000).startAddr ≤
        (initRegion 0xB0000).descriptorAddr (some ((initRegion 0xB0000).pageNum - 1)) := by
  have hlt : 0xB0000 < physMemEnd := by norm_num [physMemEnd]
  obtain ⟨-, -, hA, hF, hN⟩ := initRegion_pages hlt
  have hP : availablePages 0xB0000 = 257872 := by norm_num [availablePages, physMemEnd, pageSize]
  have hR : reservedPages 0xB0000 = 1999 := by norm_num [reservedPages, hP]
  rw [hP] at hA
  rw [hP, hR] at hF hN
  refine ⟨hlt, fun hfit => ?_, ?_⟩
  · have he := hfit.ends
    rw [hF, hA, hN] at he
    norm_num [sizeofPage] at he
  · show physToVirt (freePhysMemStart 0xB0000) ≤
      physToVirt (availablePhysMemStart 0xB0000) + ((initRegion 0xB0000).pageNum - 1) * sizeofPage
    rw [hF, hA, hN]
    norm_num [physToVirt, kbase, sizeofPage]

/-! ## Regions without an aligned page -/

/-- A non-empty region whose first address, rounded up to 4 MB, is not an address of the region. -/
structure NoAlignedPage (s : Buddy) : Prop where
  nonempty : 0 < s.pageNum
  size : s.size = s.pageNum * pageSize
  bound : s.startAddr + s.size ≤ 2 ^ 64
  beyond : s.startAddr + s.size ≤ (s.startAddr + (2 ^ 22 - 1)) / 2 ^ 22 * 2 ^ 22

/-- Populating the region returns, with every page in exactly one listed chunk and chunks at multiples
of their size; a store outside the descriptor array is a fault and does not return. -/
def Populates (s : Buddy) (r : Except Fault Buddy) : Prop :=
  ∃ s', r = .ok s' ∧ (∀ p < s.pageNum, ∃! b : Block, b ∈ s'.freeBlocks ∧ p ∈ b.pages) ∧
    ∀ b ∈ s'.freeBlocks, 2 ^ (12 + b.order) ∣ s.pageToVirt b.start

/-- The rounded address has no descriptor. -/
lemma NoAlignedPage.virtToPage {s : Buddy} (h : NoAlignedPage s) :
    s.virtToPage (roundUp (s.pageToVirt 0) (buddyChunkSize (buddyMaxOrder - 1))) = none := by
  have hsz := h.size
  have hpos := h.nonempty
  have hbd := h.bound
  have hby := h.beyond
  have e : roundUp (s.pageToVirt 0) (buddyChunkSize (buddyMaxOrder - 1)) =
      (s.startAddr + 4194303) % 2 ^ 64 / 4194304 * 4194304 := by
    simp [roundUp, pageToVirt, buddyChunkSize, buddyMaxOrder]
  have hps : pageSize = 4096 := rfl
  rw [hps] at hsz
  -- either the rounding wraps around to `0`, or it stays beyond the end of the region
  have hout : (s.startAddr + 4194303) % 2 ^ 64 / 4194304 * 4194304 < s.startAddr ∨
      (s.startAddr + s.size) % 2 ^ 64 ≤ (s.startAddr + 4194303) % 2 ^ 64 / 4194304 * 4194304 := by
    norm_num at hbd hby ⊢
    omega
  rw [e, Buddy.virtToPage, if_pos hout]

/-- `populate_page` on such a region stores through `NULL`, whatever the region. -/
theorem populate_page_faults {s : Buddy} (h : NoAlignedPage s) :
    s.populatePage 0 s.pageNum = .error .wild ∧ ¬ Populates s (s.populatePage 0 s.pageNum) := by
  have hkeep : ¬ s.descriptorAddr (some (0 + s.pageNum)) ≤ s.descriptorAddr none := by
    have hpos := h.nonempty
    simp only [descriptorAddr, sizeofPage]
    omega
  have e : s.populatePage 0 s.pageNum = .error .wild := by
    rw [populatePage, h.virtToPage, populateFrom, if_neg hkeep]
  refine ⟨e, ?_⟩
  rintro ⟨s', e', -⟩
  rw [e] at e'
  cases e'

/-- An image that ends two pages below the end of memory leaves one managed page. -/
lemma noAlignedPage_last : NoAlignedPage (initRegion 0x3EFFE000) := by
  refine ⟨?_, ?_, ?_, ?_⟩ <;>
    norm_num [initRegion, freePhysMemStart, availablePhysMemStart, availablePhysMemEnd, roundUp,
      roundDown, subWord, physToVirt, kbase, physMemEnd, pageSize, sizeofPage]

/-- The statement for the region of that image. -/
theorem populate_page_faults_last :
    NoAlignedPage (initRegion 0x3EFFE000) ∧ initBuddy 0x3EFFE000 = .error .wild :=
  ⟨noAlignedPage_last, (populate_page_faults noAlignedPage_last).1⟩

/-- `init_buddy` does not populate the region of that image. -/
theorem last_page_not_populated :
    NoAlignedPage (initRegion 0x3EFFE000) ∧
      ¬ Populates (initRegion 0x3EFFE000) (initBuddy 0x3EFFE000) := by
  refine ⟨noAlignedPage_last, ?_⟩
  rintro ⟨s', e, -⟩
  rw [initBuddy, populatePage, noAlignedPage_last.virtToPage] at e
  cases e

end KingdoKernel.Buddy
