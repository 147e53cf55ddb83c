import KingdoKernel.PageTable.Linear

/-!
# The kernel stack

`main` (`arch/aarch64/main.c`) maps the stack of the boot core at `KSTACKx_ADDR(0)`. The call hands over
the physical address of `cpu_stacks[0]`, an array whose declared alignment is `STACK_ALIGNMENT`, while the
mapping is by frame number: `stack_mapped_iff` says when the mapped stack is the array.
-/

namespace KingdoKernel.PageTable
open BitField

/-- `CPU_STACK_SIZE`. -/
def cpuStackSize : ℕ := 4096

/-- `KSTACK_BASE`. -/
def kstackBase : ℕ := 0xFFFFFFFF00000000

/-- `KSTACKx_ADDR`. -/
def kstackxAddr (cpuid : ℕ) : ℕ := (cpuid * 2 * cpuStackSize + kstackBase) % 2 ^ 64

/-- The call of `map_range_in_pgtbl_kernel` in `main`, with `cpu_stacks[0]` at `cpuStacks`. -/
def mapKernelStack (getPages : ℕ → ℕ) (t : BootTables) (cpuStacks : ℕ) (s : State) : Except Fault State :=
  mapRangeInPgtblKernel getPages (physToVirt t.ttbr1L0) (kstackxAddr 0) (virtToPhys cpuStacks)
    cpuStackSize (vmrRead ||| vmrWrite) s

section

variable {t : BootTables} {m m' : Mem} {getPages : ℕ → ℕ} {s s' : State} {cpuStacks : ℕ}

/-- A tree depends on the entries of its pages only. -/
lemma Tree.congr {B : Blocks} {root : ℕ} {tab : ℕ → ℕ → Option ℕ} (h : Tree B root m tab)
    (he : ∀ {d k p}, tab d k = some p → ∀ j < 512, ent m' p j = ent m p j) : Tree B root m' tab := by
  have hi : ∀ x, x % 512 < 512 := fun x => Nat.mod_lt _ (by norm_num)
  exact {
    root_eq := h.root_eq
    page := h.page
    inj := h.inj
    parent := h.parent
    child := fun hd hp hq => by rw [he hp _ (hi _)]; exact h.child hd hp hq
    empty := fun hd hp hq => by rw [he hp _ (hi _)]; exact h.empty hd hp hq
    block := h.block }

/-- Since `init_kernel_pt` the pages of the tables below `boot_ttbr1_l0` have not been written. -/
def BootTables.Unchanged (t : BootTables) (m m' : Mem) : Prop :=
  ∀ p ∈ t.ttbr1, ∀ a, p ≤ a → a < p + 4096 → m' a = initKernelPt t m a

/-- The tree at the time of the call in `main`. -/
lemma Mapped.main (hz : t.Zero m) (hs : t.Unchanged m s.mem) :
    Mapped getPages t.ttbr1 ttbr1Blocks.blocks (physToVirt t.ttbr1L0) s
      (ttbr1Blocks.tab (physToVirt t.ttbr1L0) (physToVirt t.ttbr1L1) (physToVirt t.ttbr1L2)) := by
  have hboot := Mapped.boot getPages hz
  have hknown : ∀ {d k p}, ttbr1Blocks.tab (physToVirt t.ttbr1L0) (physToVirt t.ttbr1L1)
      (physToVirt t.ttbr1L2) d k = some p → p ∈ t.ttbr1 := by
    intro d k p h
    rcases hboot.known h with hmem | ⟨i, hi, -⟩
    · exact hmem
    · exact absurd hi (Nat.not_lt_zero i)
  refine { toTree := hboot.toTree.congr fun {d k p} h j hj => ?_, known := fun h => .inl (hknown h) }
  apply Mem.load_congr
  intro x h1 h2
  unfold entAddr at h1 h2
  exact hs p (hknown h) x (by omega) (by omega)

/-- The stack meets no block. -/
lemma kstack_avoids : ttbr1Blocks.blocks.Avoids (kstackxAddr 0) (pageCnt cpuStackSize) := by
  intro j hj l
  apply ttbr1Blocks.blocks_avoid
  have hb : ttbr1Blocks.b = 510 := rfl
  have hcnt : pageCnt cpuStackSize = 1 := rfl
  rw [hcnt] at hj
  rw [hb, key, indexShift_L0]
  unfold kstackxAddr kstackBase cpuStackSize pageSize
  omega

/-- The call in `main` as one of the calls of `Map.lean`. -/
def stackCall (cpuStacks : ℕ) : Call :=
  ⟨.kernelPte, kstackxAddr 0, virtToPhys cpuStacks, cpuStackSize, vmrRead ||| vmrWrite, none⟩

/-- The call in `main` maps one range of the kernel half. -/
lemma mapKernelStack_eq : mapKernelStack getPages t cpuStacks s =
    (stackCall cpuStacks).exec getPages (physToVirt t.ttbr1L0) s := rfl

/-- The call in `main` returns if three pages can be had. -/
lemma mapKernelStack_ok (hz : t.Zero m) (hs : t.Unchanged m s.mem) (hf : Fresh getPages t.ttbr1)
    (hn : ∀ n < s.taken + 3, getPages n ≠ 0) : ∃ s', mapKernelStack getPages t cpuStacks s = .ok s' := by
  have hcnt : pageCnt cpuStackSize = 1 := rfl
  have hal : kstackxAddr 0 % 4096 = 0 := by decide
  have hva : kstackxAddr 0 < 2 ^ 64 := by decide
  obtain ⟨s', e, -⟩ := Call.exec_ok (c := stackCall cpuStacks) hf (.main hz hs) hal hva
    kstack_avoids fun n hlt => hn n (by rw [stackCall, hcnt] at hlt; omega)
  exact ⟨s', by rw [mapKernelStack_eq, e]⟩

/-- What the mapped stack translates to. -/
lemma query_stack (hz : t.Zero m) (hs : t.Unchanged m s.mem) (hf : Fresh getPages t.ttbr1)
    (hlow : kbase ≤ cpuStacks) (hhigh : cpuStacks < kbase + 2 ^ 32)
    (hr : mapKernelStack getPages t cpuStacks s = .ok s') {i : ℕ} (hi : i < cpuStackSize) :
    ∃ e, queryInPgtbl s'.mem (physToVirt t.ttbr1L0) (kstackxAddr 0 + i) =
      .ok ((cpuStacks - kbase) / 4096 * 4096 + i, e) := by
  rw [mapKernelStack_eq] at hr
  obtain ⟨-, tab, h, hl⟩ := Call.exec_spec hf (.main hz hs) hr
  have hphys : virtToPhys cpuStacks = cpuStacks - kbase :=
    virtToPhys_of_le hlow (hhigh.trans (by decide))
  have hbase : kstackxAddr 0 = 0xFFFFFFFF00000000 := by decide
  have hsize : cpuStackSize = 4096 := rfl
  have hvpn : vpn (kstackxAddr 0 + i) = vpn (kstackxAddr 0) := by
    rw [hbase]
    unfold vpn
    omega
  have hleaf : leafAt s'.mem tab (vpn (kstackxAddr 0 + i)) =
      pagePte (virtToPhys cpuStacks) (vmrRead ||| vmrWrite) .kernelPte := by
    have hcnt : pageCnt cpuStackSize = 1 := rfl
    rw [hl, hvpn, stackCall, Call.setLeaves]
    simp only [hcnt, setPages, Function.update_self]
  obtain ⟨e, hq, -⟩ := query_leaf h.toTree (by rw [hleaf]; exact pagePte_valid _ _ _)
  refine ⟨e, ?_⟩
  have haddr : (cpuStacks - kbase) / 4096 % 2 ^ 36 * 4096 + (kstackxAddr 0 + i) % 4096 =
      (cpuStacks - kbase) / 4096 * 4096 + i := by
    rw [hbase]
    omega
  rw [hq, hleaf, getPaddrInPte_pagePte, hphys, haddr]

end

/-- After the call in `main` the mapped stack is `cpu_stacks[0]` exactly if the array starts at a page
boundary. -/
theorem stack_mapped_iff (t : BootTables) (m : Mem) (getPages : ℕ → ℕ) (s s' : State) (cpuStacks : ℕ)
    (hz : t.Zero m) (hs : t.Unchanged m s.mem) (hf : Fresh getPages t.ttbr1)
    (hlow : kbase ≤ cpuStacks) (hhigh : cpuStacks + cpuStackSize ≤ kbase + 2 ^ 32)
    (hr : mapKernelStack getPages t cpuStacks s = .ok s') :
    (∀ i < cpuStackSize, ∃ e, queryInPgtbl s'.mem (physToVirt t.ttbr1L0) (kstackxAddr 0 + i) =
        .ok (virtToPhys (cpuStacks + i), e)) ↔ cpuStacks % 4096 = 0 := by
  have hsize : cpuStackSize = 4096 := rfl
  have hlt : cpuStacks < kbase + 2 ^ 32 := by omega
  have hphys : ∀ i < cpuStackSize, virtToPhys (cpuStacks + i) = cpuStacks - kbase + i := by
    intro i hi
    rw [virtToPhys_of_le (by omega) (by unfold kbase at *; omega)]
    omega
  constructor
  · intro hall
    obtain ⟨e, hq⟩ := hall 0 (by omega)
    obtain ⟨e', hq'⟩ := query_stack hz hs hf hlow hlt hr (i := 0) (by omega)
    rw [hq, hphys 0 (by omega)] at hq'
    obtain ⟨heq, -⟩ := Prod.mk.inj (Except.ok.inj hq')
    have hk : kbase % 4096 = 0 := by decide
    omega
  · intro hal i hi
    obtain ⟨e, hq⟩ := query_stack hz hs hf hlow hlt hr hi
    refine ⟨e, ?_⟩
    have hk : kbase % 4096 = 0 := by decide
    have heq : (cpuStacks - kbase) / 4096 * 4096 + i = cpuStacks - kbase + i := by omega
    rw [hq, hphys i hi, heq]

/-- The call in `main` for one placement of the tables returns. -/
lemma mapKernelStack_at_text (cpuStacks : ℕ) : ∃ s, mapKernelStack (pagesFrom 9) bootTablesAtText cpuStacks
    ⟨initKernelPt bootTablesAtText fun _ => 0, 0, none⟩ = .ok s := by
  have hn : ∀ n < 0 + 3, pagesFrom 9 n ≠ 0 := by decide
  have hz : bootTablesAtText.Zero fun _ => 0 := fun _ _ _ _ _ => rfl
  exact mapKernelStack_ok hz (fun _ _ _ _ _ => rfl) pagesFrom_fresh_boot hn

/-- The statement for an array at a page boundary. -/
theorem stack_mapped_iff_aligned :
    ∃ s, mapKernelStack (pagesFrom 9) bootTablesAtText 0xFFFFFF0000090000
        ⟨initKernelPt bootTablesAtText fun _ => 0, 0, none⟩ = .ok s ∧
      ∀ i < cpuStackSize, ∃ e, queryInPgtbl s.mem (physToVirt 0x83000) (kstackxAddr 0 + i) =
        .ok (virtToPhys (0xFFFFFF0000090000 + i), e) := by
  obtain ⟨s, hr⟩ := mapKernelStack_at_text 0xFFFFFF0000090000
  have hz : bootTablesAtText.Zero fun _ => 0 := fun _ _ _ _ _ => rfl
  exact ⟨s, hr, (stack_mapped_iff bootTablesAtText _ _ _ s 0xFFFFFF0000090000 hz (fun _ _ _ _ _ => rfl)
    pagesFrom_fresh_boot (by decide) (by decide) hr).2 (by decide)⟩

/-- An array that is aligned to `STACK_ALIGNMENT` but not to a page: the mapped stack starts sixteen
bytes before it. -/
theorem stack_below_array : 0xFFFFFF0000090010 % 16 = 0 ∧
    ∃ s, mapKernelStack (pagesFrom 9) bootTablesAtText 0xFFFFFF0000090010
        ⟨initKernelPt bootTablesAtText fun _ => 0, 0, none⟩ = .ok s ∧
      ∃ e, queryInPgtbl s.mem (physToVirt 0x83000) (kstackxAddr 0) = .ok (0x90000, e) ∧
        virtToPhys 0xFFFFFF0000090010 = 0x90010 := by
  obtain ⟨s, hr⟩ := mapKernelStack_at_text 0xFFFFFF0000090010
  have hz : bootTablesAtText.Zero fun _ => 0 := fun _ _ _ _ _ => rfl
  obtain ⟨e, hq⟩ := query_stack hz (fun _ _ _ _ _ => rfl) pagesFrom_fresh_boot (by decide) (by decide) hr
    (i := 0) (by decide)
  exact ⟨by decide, s, hr, e, hq, by decide⟩

end KingdoKernel.PageTable
