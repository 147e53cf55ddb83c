import KingdoKernel.PageTable.Map

/-!
# The boot page tables

Model of `init_kernel_pt` (`arch/aarch64/boot/raspi3/init/mmu.c`). It runs with the MMU off, so its
tables are given by their physical addresses; in the memory of the model the table at `p` is at
`phys_to_virt(p)`. The five loops are instances of `fillBlocks`.

`initKernelPt_ent` gives the entries it leaves in zero tables.
-/

namespace KingdoKernel.PageTable
open BitField

namespace Boot

/-- `PHYSMEM_START`. -/
def physmemStart : ℕ := 0

/-- `PERIPHERAL_BASE`. -/
def peripheralBase : ℕ := 0x3F000000

/-- `SHARED_PERIPHERAL_END`. -/
def sharedPeripheralEnd : ℕ := 0x40000000

/-- `PHYSMEM_END`. -/
def physmemEnd : ℕ := 0xFFFFFFFF

/-- `KERNEL_VADDR`. -/
def kernelVaddr : ℕ := 0xFFFFFF0000000000

/-- `SIZE_2M`. -/
def size2M : ℕ := 2 * 1024 * 1024

/-- `SIZE_1G`. -/
def size1G : ℕ := 1024 * 1024 * 1024

instance : NeZero size2M := ⟨by decide⟩

instance : NeZero size1G := ⟨by decide⟩

/-- `IS_VALID`. -/
def isValid : ℕ := 1 <<< 0

/-- `IS_TABLE`. -/
def isTable : ℕ := 1 <<< 1

/-- `UXN`. -/
def uxn : ℕ := 1 <<< 54

/-- `ACCESSED`. -/
def accessed : ℕ := 1 <<< 10

/-- `NG`. -/
def ng : ℕ := 1 <<< 11

/-- `INNER_SHARABLE`. -/
def innerSharable : ℕ := 3 <<< 8

/-- `NORMAL_MEMORY` of `mmu.c`, at its place in an entry. -/
def normalMemory : ℕ := 4 <<< 2

/-- `DEVICE_MEMORY` of `mmu.c`, at its place in an entry. -/
def deviceMemory : ℕ := 0 <<< 2

end Boot

open Boot

/-- The physical addresses of the boot tables: distinct pages below 4 GB, which the linear map covers. -/
structure BootTables where
  ttbr0L0 : ℕ
  ttbr0L1 : ℕ
  ttbr0L2 : ℕ
  ttbr1L0 : ℕ
  ttbr1L1 : ℕ
  ttbr1L2 : ℕ
  pages : ∀ p ∈ [ttbr0L0, ttbr0L1, ttbr0L2, ttbr1L0, ttbr1L1, ttbr1L2], p % 4096 = 0 ∧ p < 2 ^ 32
  distinct : [ttbr0L0, ttbr0L1, ttbr0L2, ttbr1L0, ttbr1L1, ttbr1L2].Nodup

/-- The tables. -/
def BootTables.all (t : BootTables) : List ℕ :=
  [t.ttbr0L0, t.ttbr0L1, t.ttbr0L2, t.ttbr1L0, t.ttbr1L1, t.ttbr1L2]

/-- `table[i] = v`. -/
def setEntry (m : Mem) (tbl i v : ℕ) : Mem := m.store (entAddr (physToVirt tbl) i) 8 v

/-- `for (; vaddr < stop; vaddr += step) table[GET_Lx_INDEX(vaddr + base)] = entry(vaddr)`: the value of
`vaddr` after the loop and memory. -/
def fillBlocks (tbl : ℕ) (level : Level) (base : ℕ) (entry : ℕ → ℕ) (step : ℕ) [NeZero step]
    (stop vaddr : ℕ) (m : Mem) : ℕ × Mem :=
  if vaddr < stop then
    fillBlocks tbl level base entry step stop (vaddr + step)
      (setEntry m tbl (getIndex level ((vaddr + base) % 2 ^ 64)) (entry vaddr))
  else (vaddr, m)
termination_by stop - vaddr
decreasing_by
  have := NeZero.pos step
  omega

/-- `init_kernel_pt`. -/
def initKernelPt (t : BootTables) (m : Mem) : Mem :=
  let vaddr := physmemStart
  let m := setEntry m t.ttbr1L0 (getIndex .L0 ((vaddr + kernelVaddr) % 2 ^ 64))
    (t.ttbr1L1 ||| isTable ||| isValid ||| ng)
  let m := setEntry m t.ttbr1L1 (getIndex .L1 ((vaddr + kernelVaddr) % 2 ^ 64))
    (t.ttbr1L2 ||| isTable ||| isValid ||| ng)
  let (vaddr, m) := fillBlocks t.ttbr1L2 .L2 kernelVaddr
    (fun vaddr => vaddr ||| uxn ||| accessed ||| ng ||| innerSharable ||| Boot.normalMemory ||| isValid)
    size2M peripheralBase vaddr m
  let (vaddr, m) := fillBlocks t.ttbr1L2 .L2 kernelVaddr
    (fun vaddr => vaddr ||| uxn ||| accessed ||| ng ||| innerSharable ||| Boot.deviceMemory ||| isValid)
    size2M sharedPeripheralEnd vaddr m
  let (_, m) := fillBlocks t.ttbr1L1 .L1 kernelVaddr
    (fun vaddr => vaddr ||| uxn ||| accessed ||| ng ||| Boot.deviceMemory ||| isValid)
    size1G physmemEnd vaddr m
  let vaddr := physmemStart
  let m := setEntry m t.ttbr0L0 (getIndex .L0 vaddr) (t.ttbr0L1 ||| isTable ||| isValid ||| ng)
  let m := setEntry m t.ttbr0L1 (getIndex .L1 vaddr) (t.ttbr0L2 ||| isTable ||| isValid ||| ng)
  let (vaddr, m) := fillBlocks t.ttbr0L2 .L2 0
    (fun vaddr => vaddr ||| uxn ||| accessed ||| ng ||| innerSharable ||| Boot.normalMemory ||| isValid)
    size2M size2M vaddr m
  let (_, m) := fillBlocks t.ttbr0L2 .L2 0
    (fun vaddr => vaddr ||| uxn ||| accessed ||| ng ||| innerSharable ||| Boot.deviceMemory ||| isValid)
    size2M sharedPeripheralEnd vaddr m
  m

section Fill

variable {m : Mem} {tbl i v q j : ℕ}

/-- The kernel address of a physical one. -/
lemma physToVirt_of_lt {p : ℕ} (h : p < 2 ^ 32) : physToVirt p = kbase + p := by
  unfold physToVirt kbase
  omega

/-- A table of the linear map is a page. -/
lemma isPage_physToVirt {p : ℕ} (h : p % 4096 = 0 ∧ p < 2 ^ 32) : IsPage (physToVirt p) := by
  obtain ⟨hal, hlt⟩ := h
  rw [physToVirt_of_lt hlt]
  unfold IsPage kbase
  omega

/-- Reading the boot tables after one entry has been written. -/
lemma ent_setEntry (ht : tbl % 4096 = 0 ∧ tbl < 2 ^ 32) (hq : q % 4096 = 0 ∧ q < 2 ^ 32) (hi : i < 512)
    (hj : j < 512) (hv : v < 2 ^ 64) :
    ent (setEntry m tbl i v) (physToVirt q) j = if q = tbl ∧ j = i then v else ent m (physToVirt q) j := by
  split
  · next h =>
    obtain ⟨rfl, rfl⟩ := h
    exact ent_store_self hv
  · next h =>
    apply ent_store_of_ne (isPage_physToVirt ht) (isPage_physToVirt hq) hi hj
    rw [physToVirt_of_lt hq.2, physToVirt_of_lt ht.2]
    omega

/-- A loop from entry `n` up to entry `k` of a table writes these entries. -/
lemma fillBlocks_ent {level : Level} {base : ℕ} (entry : ℕ → ℕ) {step : ℕ} [NeZero step]
    (stop k : ℕ) {n : ℕ} (hn : n ≤ k) (ht : tbl % 4096 = 0 ∧ tbl < 2 ^ 32)
    (hidx : ∀ i < 512, getIndex level ((i * step + base) % 2 ^ 64) = i)
    (hentry : ∀ i < 512, entry (i * step) < 2 ^ 64) (hk : k ≤ 512) (hstop : stop ≤ k * step)
    (hlast : (k - 1) * step < stop) (m : Mem) :
    ∃ m', fillBlocks tbl level base entry step stop (n * step) m = (k * step, m') ∧
      ∀ {q j}, q % 4096 = 0 ∧ q < 2 ^ 32 → j < 512 → ent m' (physToVirt q) j =
        if q = tbl ∧ n ≤ j ∧ j < k then entry (j * step) else ent m (physToVirt q) j := by
  induction hn using Nat.decreasingInduction generalizing m with
  | self =>
    refine ⟨m, ?_, fun {q j} hq hj => (if_neg (by omega)).symm⟩
    rw [fillBlocks, if_neg (by omega)]
  | of_succ n hlt ih =>
    have hrun : n * step < stop := by
      have := Nat.mul_le_mul_right step (Nat.le_sub_one_of_lt hlt)
      omega
    obtain ⟨m', e, hent⟩ := ih (setEntry m tbl n (entry (n * step)))
    refine ⟨m', ?_, fun {q j} hq hj => ?_⟩
    · rw [fillBlocks, if_pos hrun, hidx n (by omega), ← Nat.succ_mul, e]
    · rw [hent hq hj, ent_setEntry ht hq (by omega) hj (hentry n (by omega))]
      by_cases hqt : q = tbl
      · by_cases hjn : j = n
        · subst hjn
          rw [if_neg (by omega), if_pos ⟨hqt, rfl⟩, if_pos ⟨hqt, le_rfl, hlt⟩]
        · by_cases hin : n ≤ j ∧ j < k
          · rw [if_pos ⟨hqt, by omega, hin.2⟩, if_pos ⟨hqt, hin⟩]
          · rw [if_neg (by omega), if_neg (by omega), if_neg (by omega)]
      · rw [if_neg (by tauto), if_neg (by tauto), if_neg (by tauto)]

end Fill

section Entries

variable {v a o w : ℕ}

/-- The bits below 12 of an address of a page are those of the attributes. -/
lemma getBits_or_low (hv : v % 4096 = 0) (h : o + w ≤ 12) : getBits (v ||| a) o w = getBits a o w := by
  have h0 : getBits v o w = getBits 0 o w := getBits_congr_mod (n := 12) hv h
  rw [getBits_or, h0, getBits_zero, Nat.zero_or]

/-- Attributes leave the address. -/
lemma getPaddrInPte_or (hv : v % 4096 = 0) (hlt : v < 2 ^ 48) (ha : getBits a 12 36 = 0) :
    getPaddrInPte (v ||| a) = v := by
  have hfield : table.get (v ||| a) .nextTableAddr = getBits v 12 36 ||| getBits a 12 36 :=
    getBits_or v a 12 36
  rw [getPaddrInPte_eq, hfield, ha, Nat.or_zero, getBits]
  omega

/-- The attributes of a table entry. -/
def tableAttr : ℕ := isTable ||| isValid ||| ng

/-- The attributes of a 2 MB block of normal memory. -/
def normalAttr : ℕ := uxn ||| accessed ||| ng ||| innerSharable ||| Boot.normalMemory ||| isValid

example : normalAttr = 0x40000000000f11 := rfl

/-- The attributes of a 2 MB block of device memory. -/
def deviceAttr : ℕ := uxn ||| accessed ||| ng ||| innerSharable ||| Boot.deviceMemory ||| isValid

/-- The attributes of a 1 GB block of device memory. -/
def localAttr : ℕ := uxn ||| accessed ||| ng ||| Boot.deviceMemory ||| isValid

/-- An address with an attribute is a word. -/
lemma or_lt_word (hv : v < 2 ^ 48) (ha : a < 2 ^ 64) : v ||| a < 2 ^ 64 :=
  Nat.or_lt_two_pow (hv.trans (by norm_num)) ha

/-- An entry that refers to the table at `v`. -/
lemma points_tableAttr (hv : v % 4096 = 0) (hlt : v < 2 ^ 48) :
    Points (v ||| tableAttr) (physToVirt v) := by
  have h0 : table.get (v ||| tableAttr) .isValid = 1 := getBits_or_low hv (by decide)
  have h1 : table.get (v ||| tableAttr) .isTable = 1 := getBits_or_low hv (by decide)
  refine ⟨isPteInvalid_eq_false h0, (isPteTable_iff _).2 (by rw [h1]; exact one_ne_zero), ?_⟩
  rw [getPaddrInPte_or hv hlt (by decide)]

/-- The attributes of a block: valid, not a table, no bits in the address. -/
def BlockAttr (a : ℕ) : Prop := a < 2 ^ 64 ∧ getBits a 0 1 = 1 ∧ getBits a 1 1 = 0 ∧ getBits a 12 36 = 0

instance (a : ℕ) : Decidable (BlockAttr a) := inferInstanceAs (Decidable (_ ∧ _))

/-- The attribute of normal memory is one of a block. -/
lemma normalAttr_block : BlockAttr normalAttr := by decide

/-- The attribute of device memory is one of a block. -/
lemma deviceAttr_block : BlockAttr deviceAttr := by decide

/-- The attribute of the local peripherals is one of a block. -/
lemma localAttr_block : BlockAttr localAttr := by decide

/-- An entry with the attribute of a block is valid and no table. -/
lemma BlockAttr.valid (ha : BlockAttr a) (hv : v % 4096 = 0) :
    isPteInvalid (v ||| a) = false ∧ isPteTable (v ||| a) = false := by
  obtain ⟨-, h0, h1, -⟩ := ha
  have e0 : table.get (v ||| a) .isValid = 1 := (getBits_or_low hv (by decide)).trans h0
  have e1 : table.get (v ||| a) .isTable = 0 := (getBits_or_low hv (by decide)).trans h1
  refine ⟨isPteInvalid_eq_false e0, ?_⟩
  rw [Bool.eq_false_iff, ne_eq, isPteTable_iff, e1]
  exact fun h => h rfl

end Entries

section Init

variable (t : BootTables)

/-- The entries `init_kernel_pt` leaves in zero tables. -/
def BootTables.entry (t : BootTables) (q j : ℕ) : ℕ :=
  if q = t.ttbr0L2 ∧ 1 ≤ j ∧ j < 512 then j * size2M ||| deviceAttr
  else if q = t.ttbr0L2 ∧ 0 ≤ j ∧ j < 1 then j * size2M ||| normalAttr
  else if q = t.ttbr0L1 ∧ j = 0 then t.ttbr0L2 ||| tableAttr
  else if q = t.ttbr0L0 ∧ j = 0 then t.ttbr0L1 ||| tableAttr
  else if q = t.ttbr1L1 ∧ 1 ≤ j ∧ j < 4 then j * size1G ||| localAttr
  else if q = t.ttbr1L2 ∧ 504 ≤ j ∧ j < 512 then j * size2M ||| deviceAttr
  else if q = t.ttbr1L2 ∧ 0 ≤ j ∧ j < 504 then j * size2M ||| normalAttr
  else if q = t.ttbr1L1 ∧ j = 0 then t.ttbr1L2 ||| tableAttr
  else if q = t.ttbr1L0 ∧ j = 510 then t.ttbr1L1 ||| tableAttr
  else 0

/-- The 2 MB blocks of the kernel half are indexed in order. -/
lemma getIndex_L2_kernel (i : ℕ) (hi : i < 512) :
    getIndex .L2 ((i * size2M + kernelVaddr) % 2 ^ 64) = i := by
  rw [getIndex_eq, key, indexShift_L2]
  unfold size2M kernelVaddr
  omega

/-- The 1 GB blocks of the kernel half are indexed in order. -/
lemma getIndex_L1_kernel (i : ℕ) (hi : i < 512) :
    getIndex .L1 ((i * size1G + kernelVaddr) % 2 ^ 64) = i := by
  rw [getIndex_eq, key, indexShift_L1]
  unfold size1G kernelVaddr
  omega

/-- The 2 MB blocks of the lower half are indexed in order. -/
lemma getIndex_L2_low (i : ℕ) (hi : i < 512) : getIndex .L2 ((i * size2M + 0) % 2 ^ 64) = i := by
  rw [getIndex_eq, key, indexShift_L2]
  unfold size2M
  omega

/-- The entries of the boot tables after `init_kernel_pt`. -/
lemma initKernelPt_ent {m : Mem} (hz : ∀ p ∈ t.all, ∀ j < 512, ent m (physToVirt p) j = 0) {q j : ℕ}
    (hq : q ∈ t.all) (hj : j < 512) : ent (initKernelPt t m) (physToVirt q) j = t.entry q j := by
  have hnormal :
      (fun v => v ||| uxn ||| accessed ||| ng ||| innerSharable ||| Boot.normalMemory ||| isValid) =
        fun v => v ||| normalAttr := by
    funext v
    simp only [normalAttr, Nat.or_assoc]
  have hdevice :
      (fun v => v ||| uxn ||| accessed ||| ng ||| innerSharable ||| Boot.deviceMemory ||| isValid) =
        fun v => v ||| deviceAttr := by
    funext v
    simp only [deviceAttr, Nat.or_assoc]
  have hlocal : (fun v => v ||| uxn ||| accessed ||| ng ||| Boot.deviceMemory ||| isValid) =
      fun v => v ||| localAttr := by
    funext v
    simp only [localAttr, Nat.or_assoc]
  have htable : ∀ v, v ||| isTable ||| isValid ||| ng = v ||| tableAttr := by
    intro v
    simp only [tableAttr, Nat.or_assoc]
  have hlt2M : ∀ a < 2 ^ 64, ∀ i < 512, i * size2M ||| a < 2 ^ 64 := fun a ha i hi =>
    or_lt_word (by unfold size2M; omega) ha
  have hlt1G : ∀ i < 512, i * size1G ||| localAttr < 2 ^ 64 := fun i hi =>
    or_lt_word (by unfold size1G; omega) (by decide)
  have hpage : ∀ p ∈ t.all, p % 4096 = 0 ∧ p < 2 ^ 32 := t.pages
  have htlt : ∀ p ∈ t.all, p ||| tableAttr < 2 ^ 64 := fun p hp =>
    or_lt_word ((hpage p hp).2.trans (by norm_num)) (by decide)
  have hmem00 : t.ttbr0L0 ∈ t.all := by simp [BootTables.all]
  have hmem01 : t.ttbr0L1 ∈ t.all := by simp [BootTables.all]
  have hmem02 : t.ttbr0L2 ∈ t.all := by simp [BootTables.all]
  have hmem10 : t.ttbr1L0 ∈ t.all := by simp [BootTables.all]
  have hmem11 : t.ttbr1L1 ∈ t.all := by simp [BootTables.all]
  have hmem12 : t.ttbr1L2 ∈ t.all := by simp [BootTables.all]
  have hi510 : getIndex .L0 ((physmemStart + kernelVaddr) % 2 ^ 64) = 510 := by decide
  have hi0 : getIndex .L1 ((physmemStart + kernelVaddr) % 2 ^ 64) = 0 := by decide
  have hl0 : getIndex .L0 physmemStart = 0 := by decide
  have hl1 : getIndex .L1 physmemStart = 0 := by decide
  have hstart : physmemStart = 0 * size2M := by decide
  have h1G : 512 * size2M = 1 * size1G := by decide
  unfold initKernelPt
  simp only [hnormal, hdevice, hlocal, htable, hi510, hi0, hl0, hl1]
  obtain ⟨m3, e3, h3⟩ := fillBlocks_ent (fun v => v ||| normalAttr) peripheralBase 504 (Nat.zero_le _)
    (hpage _ hmem12) getIndex_L2_kernel (hlt2M normalAttr (by decide)) (by decide) (by decide) (by decide)
    (setEntry (setEntry m t.ttbr1L0 510 (t.ttbr1L1 ||| tableAttr)) t.ttbr1L1 0 (t.ttbr1L2 ||| tableAttr))
  obtain ⟨m4, e4, h4⟩ := fillBlocks_ent (fun v => v ||| deviceAttr) sharedPeripheralEnd 512
    (by decide : 504 ≤ 512) (hpage _ hmem12) getIndex_L2_kernel (hlt2M deviceAttr (by decide)) (by decide)
    (by decide) (by decide) m3
  obtain ⟨m5, e5, h5⟩ := fillBlocks_ent (fun v => v ||| localAttr) physmemEnd 4 (by decide : 1 ≤ 4)
    (hpage _ hmem11) getIndex_L1_kernel hlt1G (by decide) (by decide) (by decide) m4
  obtain ⟨m8, e8, h8⟩ := fillBlocks_ent (fun v => v ||| normalAttr) size2M 1 (Nat.zero_le _)
    (hpage _ hmem02) getIndex_L2_low (hlt2M normalAttr (by decide)) (by decide) (by decide) (by decide)
    (setEntry (setEntry m5 t.ttbr0L0 0 (t.ttbr0L1 ||| tableAttr)) t.ttbr0L1 0 (t.ttbr0L2 ||| tableAttr))
  obtain ⟨m9, e9, h9⟩ := fillBlocks_ent (fun v => v ||| deviceAttr) sharedPeripheralEnd 512
    (by decide : 1 ≤ 512) (hpage _ hmem02) getIndex_L2_low (hlt2M deviceAttr (by decide)) (by decide)
    (by decide) (by decide) m8
  simp only [hstart, e3, e4, h1G, e5, e8, e9]
  have hqp := hpage q hq
  rw [h9 hqp hj, h8 hqp hj, ent_setEntry (hpage _ hmem01) hqp (by norm_num) hj (htlt _ hmem02),
    ent_setEntry (hpage _ hmem00) hqp (by norm_num) hj (htlt _ hmem01), h5 hqp hj, h4 hqp hj, h3 hqp hj,
    ent_setEntry (hpage _ hmem11) hqp (by norm_num) hj (htlt _ hmem12),
    ent_setEntry (hpage _ hmem10) hqp (by norm_num) hj (htlt _ hmem11), hz q hq j hj]
  rfl

end Init

end KingdoKernel.PageTable
