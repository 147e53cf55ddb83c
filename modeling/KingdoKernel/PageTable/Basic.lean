import KingdoKernel.Lib.BitField
import KingdoKernel.Slab.Basic

/-!
# Four-level page tables

Model of `arch/aarch64/mm/page_table.c` and `include/arch/aarch64/arch/mm/page_table.h` over byte
memory. Memory is indexed by kernel virtual addresses: the byte at physical address `p` is at
`phys_to_virt(p)`. A `ptp_t *` or `pte_t *` is an address, a `pte_t` the 64-bit word stored there, and the
members `table` and `l3_page` of the union `pte_t` are two layouts of that word.

`get_pages(0)` is the parameter `getPages`: `getPages n` is the address the `n`-th call returns, `0`
being `NULL`. `State.rss` is the counter behind the parameter `rss`, `none` for a `NULL` pointer.

C → Lean naming is as in `Buddy/Basic.lean`; `L0` .. `L3` are the constructors of `Level`, and the four
macros of a family `GET_Lx_INDEX` are one function of the level. The barriers at the end of
`map_range_in_pgtbl_common` have no counterpart. As `kind` and `level` have no other values, the
`BUG_ON` on the first and the `default` branch on the second are not reached and are left out.
-/

namespace KingdoKernel

/-- `virt_to_phys`. -/
def virtToPhys (x : ℕ) : ℕ := subWord x kbase

namespace PageTable
open BitField

/-- The bit fields of `pte_t.l3_page` that the code uses. -/
inductive L3Page where
  | isValid | isPage | attrIndex | AP | SH | AF | nG | pfn | PXN | UXN
deriving DecidableEq

/-- The layout of `pte_t.l3_page`. -/
def l3Page : Layout L3Page where
  bits := 64
  offset
    | .isValid => 0 | .isPage => 1 | .attrIndex => 2 | .AP => 6 | .SH => 8 | .AF => 10 | .nG => 11
    | .pfn => 12 | .PXN => 53 | .UXN => 54
  width
    | .isValid => 1 | .isPage => 1 | .attrIndex => 3 | .AP => 2 | .SH => 2 | .AF => 1 | .nG => 1
    | .pfn => 36 | .PXN => 1 | .UXN => 1
  fits := by intro i; cases i <;> decide
  disjoint := by intro i j; cases i <;> cases j <;> decide

/-- The bit fields of `pte_t.table` that the code uses. -/
inductive Table where
  | isValid | isTable | nextTableAddr
deriving DecidableEq

/-- The layout of `pte_t.table`. -/
def table : Layout Table where
  bits := 64
  offset
    | .isValid => 0 | .isTable => 1 | .nextTableAddr => 12
  width
    | .isValid => 1 | .isTable => 1 | .nextTableAddr => 36
  fits := by intro i; cases i <;> decide
  disjoint := by intro i j; cases i <;> cases j <;> decide

/-- `VMR_READ`. -/
def vmrRead : ℕ := 1 <<< 0

/-- `VMR_WRITE`. -/
def vmrWrite : ℕ := 1 <<< 1

/-- `VMR_EXEC`. -/
def vmrExec : ℕ := 1 <<< 2

/-- `VMR_DEVICE`. -/
def vmrDevice : ℕ := 1 <<< 3

/-- `VMR_NOCACHE`. -/
def vmrNocache : ℕ := 1 <<< 4

/-- `INNER_SHAREABLE`. -/
def innerShareable : ℕ := 3

/-- `NORMAL_MEMORY`, an index into `mair_el1`. -/
def normalMemory : ℕ := 4

/-- `NORMAL_MEMORY_NOCACHE`. -/
def normalMemoryNocache : ℕ := 3

/-- `DEVICE_MEMORY`. -/
def deviceMemory : ℕ := 0

/-- `AARCH64_MMU_ATTR_PAGE_AP_HIGH_RW_EL0_RW`. -/
def apHighRwEl0Rw : ℕ := 1

/-- `AARCH64_MMU_ATTR_PAGE_AP_HIGH_RO_EL0_RO`. -/
def apHighRoEl0Ro : ℕ := 3

/-- `__vmr_prot_to_ap`. -/
def __vmrProtToAp (prot : ℕ) : ℕ :=
  if prot &&& vmrRead ≠ 0 ∧ prot &&& vmrWrite = 0 then apHighRoEl0Ro
  else if prot &&& vmrWrite ≠ 0 then apHighRwEl0Rw
  else 0

/-- `USER_PTE` and `KERNEL_PTE`. -/
inductive PteKind where
  | userPte | kernelPte
deriving DecidableEq, Repr

/-- `set_pte_flags`, on the value of the entry. -/
def setPteFlags (entry flags : ℕ) (kind : PteKind) : ℕ :=
  let entry := l3Page.set entry .AP (__vmrProtToAp flags)
  let entry :=
    match kind with
    | .kernelPte =>
      let entry := if flags &&& vmrExec = 0 then l3Page.set entry .PXN 1 else entry
      l3Page.set entry .UXN 1
    | .userPte =>
      let entry := if flags &&& vmrExec = 0 then l3Page.set entry .UXN 1 else entry
      l3Page.set entry .PXN 1
  let entry := l3Page.set entry .AF 1
  let entry := l3Page.set entry .nG 1
  let entry := l3Page.set entry .SH innerShareable
  if flags &&& vmrDevice ≠ 0 then
    let entry := l3Page.set entry .attrIndex deviceMemory
    l3Page.set entry .SH 0
  else if flags &&& vmrNocache ≠ 0 then l3Page.set entry .attrIndex normalMemoryNocache
  else l3Page.set entry .attrIndex normalMemory

/-- `PAGE_SHIFT`. -/
def pageShift : ℕ := 12

/-- `PAGE_ORDER`. -/
def pageOrder : ℕ := 9

/-- `PTP_INDEX_MASK`. -/
def ptpIndexMask : ℕ := (1 <<< pageOrder) - 1

/-- `PTP_ENTRIES`. -/
def ptpEntries : ℕ := 1 <<< pageOrder

/-- `L0` .. `L3`. -/
inductive Level where
  | L0 | L1 | L2 | L3
deriving DecidableEq, Repr

/-- `Lx_INDEX_SHIFT`. -/
def indexShift : Level → ℕ
  | .L0 => 3 * pageOrder + pageShift
  | .L1 => 2 * pageOrder + pageShift
  | .L2 => 1 * pageOrder + pageShift
  | .L3 => 0 * pageOrder + pageShift

/-- `GET_Lx_INDEX`. -/
def getIndex (level : Level) (addr : ℕ) : ℕ := (addr >>> indexShift level) &&& ptpIndexMask

/-- `Lx_PER_ENTRY_PAGES`. -/
def perEntryPages : Level → ℕ
  | .L0 => ptpEntries * (ptpEntries * (ptpEntries * 1))
  | .L1 => ptpEntries * (ptpEntries * 1)
  | .L2 => ptpEntries * 1
  | .L3 => 1

/-- `GET_VA_OFFSET_Lx`. -/
def getVaOffset (level : Level) (va : ℕ) : ℕ := va &&& ((perEntryPages level <<< pageShift) - 1)

/-- `IS_PTE_INVALID`. -/
def isPteInvalid (pte : ℕ) : Bool := pte &&& 1 <<< 0 = 0

/-- `IS_PTE_TABLE`. -/
def isPteTable (pte : ℕ) : Bool := pte &&& 1 <<< 1 ≠ 0

/-- `GET_PADDR_IN_PTE`, of the value of the entry. -/
def getPaddrInPte (pte : ℕ) : ℕ := table.get pte .nextTableAddr <<< pageShift

/-- The address of `ptp->ent[i]`. -/
def entAddr (ptp i : ℕ) : ℕ := ptp + 8 * i

/-- Memory, the number of calls of `get_pages(0)` so far, and the counter behind `rss`. -/
structure State where
  mem : Mem
  taken : ℕ
  rss : Option ℤ

/-- `*rss += PAGE_SIZE` unless `rss` is `NULL`. -/
def State.addRss (s : State) : State := { s with rss := s.rss.map (· + pageSize) }

/-- `NORMAL_PTP` and `BLOCK_PTP`. -/
inductive PtpKind where
  | normalPtp | blockPtp
deriving DecidableEq, Repr

/-- What `get_next_ptp` returns when it succeeds: its result, `*next_ptp` and `*pte`. -/
structure NextPtp where
  kind : PtpKind
  nextPtp : ℕ
  pte : ℕ
deriving DecidableEq, Repr

/-- The end of `get_next_ptp`, with a valid entry at `entry`. -/
def foundPtp (entry : ℕ) (s : State) : NextPtp :=
  let pte := s.mem.load entry 8
  ⟨if isPteTable pte then .normalPtp else .blockPtp, physToVirt (getPaddrInPte pte), entry⟩

/-- The value of an entry for the table page at `newPtp`. -/
def tablePte (newPtp : ℕ) : ℕ :=
  let pte := 0
  let pte := table.set pte .isValid 1
  let pte := table.set pte .isTable 1
  table.set pte .nextTableAddr (virtToPhys newPtp >>> pageShift)

/-- `get_next_ptp`; a negative result is an error. -/
def getNextPtp (getPages : ℕ → ℕ) (curPtp : ℕ) (level : Level) (va : ℕ) (alloc : Bool) (s : State) :
    Except ℤ NextPtp × State :=
  if curPtp = 0 then (.error (-enomem), s)
  else
    let entry := entAddr curPtp (getIndex level va)
    if isPteInvalid (s.mem.load entry 8) then
      if alloc = false then (.error (-enomem), s)
      else
        let newPtp := getPages s.taken
        let s := { s with taken := s.taken + 1 }
        if newPtp = 0 then (.error (-enomem), s)
        else
          let s := { s with mem := s.mem.memset newPtp 0 pageSize }
          let s := s.addRss
          let s := { s with mem := s.mem.store entry 8 (tablePte newPtp) }
          (.ok (foundPtp entry s), s)
    else (.ok (foundPtp entry s), s)

/-- `query_in_pgtbl`: the physical address and the entry, or the negative result. -/
def queryInPgtbl (m : Mem) (pgtbl va : ℕ) : Except ℤ (ℕ × ℕ) := do
  -- without `alloc` neither memory nor the allocator changes
  let next (ptp : ℕ) (level : Level) := (getNextPtp (fun _ => 0) ptp level va false ⟨m, 0, none⟩).1
  let n0 ← next pgtbl .L0
  let n1 ← next n0.nextPtp .L1
  if n1.kind = .blockPtp then
    return ((virtToPhys n1.nextPtp + getVaOffset .L1 va) % 2 ^ 64, n1.pte)
  let n2 ← next n1.nextPtp .L2
  if n2.kind = .blockPtp then
    return ((virtToPhys n2.nextPtp + getVaOffset .L2 va) % 2 ^ 64, n2.pte)
  let n3 ← next n2.nextPtp .L3
  return ((virtToPhys n3.nextPtp + getVaOffset .L3 va) % 2 ^ 64, n3.pte)

/-- The value written to an entry of a level 3 table. -/
def pagePte (pa flags : ℕ) (kind : PteKind) : ℕ :=
  let pte := 0
  let pte := l3Page.set pte .isValid 1
  let pte := l3Page.set pte .isPage 1
  let pte := l3Page.set pte .pfn (pa >>> pageShift)
  setPteFlags pte flags kind

/-- The variables of the loops of `map_range_in_pgtbl_common`. -/
structure Cursor where
  va : ℕ
  pa : ℕ
  totalPageCnt : ℕ
  state : State

/-- The body of the `for` loop. -/
def Cursor.fill (c : Cursor) (l3Ptp flags : ℕ) (kind : PteKind) (i : ℕ) : Cursor :=
  let s := { c.state with mem := c.state.mem.store (entAddr l3Ptp i) 8 (pagePte c.pa flags kind) }
  ⟨(c.va + pageSize) % 2 ^ 64, (c.pa + pageSize) % 2 ^ 64, c.totalPageCnt - 1, s.addRss⟩

/-- The `for` loop of `map_range_in_pgtbl_common`, from entry `i` on. -/
def fillEntries (l3Ptp flags : ℕ) (kind : PteKind) (i : ℕ) (c : Cursor) : Cursor :=
  if i < ptpEntries then
    let c := c.fill l3Ptp flags kind i
    if c.totalPageCnt = 0 then c else fillEntries l3Ptp flags kind (i + 1) c
  else c
termination_by ptpEntries - i

/-- The `for` loop does not add to the pages left. -/
lemma fillEntries_le (l3Ptp flags : ℕ) (kind : PteKind) (i : ℕ) (c : Cursor) :
    (fillEntries l3Ptp flags kind i c).totalPageCnt ≤ c.totalPageCnt := by
  induction i, c using fillEntries.induct l3Ptp flags kind with
  | case1 i c hi c' h0 =>
    rw [fillEntries, if_pos hi]
    simp only [c'] at h0
    simp only [if_pos h0]
    exact Nat.sub_le _ _
  | case2 i c hi c' h0 ih =>
    rw [fillEntries, if_pos hi]
    simp only [c'] at h0 ih
    simp only [if_neg h0]
    exact ih.trans (Nat.sub_le _ _)
  | case3 i c hi => rw [fillEntries, if_neg hi]

/-- Every run of the `for` loop maps a page. -/
lemma fillEntries_lt (l3Ptp flags : ℕ) (kind : PteKind) {i : ℕ} {c : Cursor} (hi : i < ptpEntries)
    (hc : 0 < c.totalPageCnt) :
    (fillEntries l3Ptp flags kind i c).totalPageCnt < c.totalPageCnt := by
  have hlt : (c.fill l3Ptp flags kind i).totalPageCnt < c.totalPageCnt := Nat.sub_lt hc Nat.one_pos
  rw [fillEntries, if_pos hi]
  simp only []
  split
  · exact hlt
  · exact (fillEntries_le l3Ptp flags kind (i + 1) _).trans_lt hlt

/-- The index of a level is one of 512. -/
lemma getIndex_lt (level : Level) (va : ℕ) : getIndex level va < ptpEntries :=
  lt_of_le_of_lt Nat.and_le_right (by decide)

/-- `BUG_ON(ret != 0)` after a call of `get_next_ptp`. -/
def bugOnRet : Except ℤ NextPtp × State → Except Fault (ℕ × State)
  | (.ok ⟨.normalPtp, nextPtp, _⟩, s) => .ok (nextPtp, s)
  | _ => .error (.bugOn "ret != 0")

/-- The `while` loop of `map_range_in_pgtbl_common`. -/
def mapLoop (getPages : ℕ → ℕ) (l0Ptp flags : ℕ) (kind : PteKind) (c : Cursor) :
    Except Fault State :=
  if 0 < c.totalPageCnt then do
    let (l1Ptp, s) ← bugOnRet (getNextPtp getPages l0Ptp .L0 c.va true c.state)
    let (l2Ptp, s) ← bugOnRet (getNextPtp getPages l1Ptp .L1 c.va true s)
    let (l3Ptp, s) ← bugOnRet (getNextPtp getPages l2Ptp .L2 c.va true s)
    mapLoop getPages l0Ptp flags kind
      (fillEntries l3Ptp flags kind (getIndex .L3 c.va) { c with state := s })
  else .ok c.state
termination_by c.totalPageCnt
decreasing_by exact fillEntries_lt _ _ _ (getIndex_lt _ _) ‹_›

/-- The value of `total_page_cnt` before the loop. -/
def pageCnt (len : ℕ) : ℕ := len / pageSize + if 0 < len % pageSize then 1 else 0

/-- `map_range_in_pgtbl_common`; a call that returns returns 0. -/
def mapRangeInPgtblCommon (getPages : ℕ → ℕ) (pgtbl va pa len flags : ℕ) (kind : PteKind) (s : State) :
    Except Fault State :=
  if pgtbl = 0 then .error (.bugOn "pgtbl == NULL")
  else if va % pageSize ≠ 0 then .error (.bugOn "va % PAGE_SIZE")
  else mapLoop getPages pgtbl flags kind ⟨va, pa, pageCnt len, s⟩

/-- `map_range_in_pgtbl_kernel`, which has no counter. -/
def mapRangeInPgtblKernel (getPages : ℕ → ℕ) (pgtbl va pa len flags : ℕ) (s : State) :
    Except Fault State :=
  mapRangeInPgtblCommon getPages pgtbl va pa len flags .kernelPte { s with rss := none }

/-- `map_range_in_pgtbl_user` with a counter, or `none` for `NULL`. -/
def mapRangeInPgtblUser (getPages : ℕ → ℕ) (pgtbl va pa len flags : ℕ) (rss : Option ℤ) (s : State) :
    Except Fault State :=
  mapRangeInPgtblCommon getPages pgtbl va pa len flags .userPte { s with rss := rss }

end PageTable

end KingdoKernel
