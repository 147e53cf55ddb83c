import KingdoKernel.Buddy.Basic
import KingdoKernel.Lib.Memory

/-!
# System calls

Model of the path of a system call: `sync_el0_64` and `el0_syscall` in `arch/aarch64/irq/irq_entry.S` up
to the branch to the handler, and the table in `syscall/syscall.c`. An instruction is a function on the
registers and memory of the core. What the handlers do, other than what they return, is not modelled; the
way back to EL0 is in `Exception/Basic.lean`.

`el0_syscall` takes the number from `w8`, which is the user's, and indexes the table with it.
`dispatches_iff`: what it branches to is an entry of the table exactly if the number is one.
-/

namespace KingdoKernel

/-- The system registers that the entry code reads. -/
inductive SysReg where
  | spEl0 | elrEl1 | spsrEl1 | esrEl1 | tpidrEl1
deriving DecidableEq, Repr

/-- The general registers `x0` to `x30`, the stack pointer, the system registers, and memory. -/
structure Cpu where
  x : ℕ → ℕ
  sp : ℕ
  sys : SysReg → ℕ
  mem : Mem

namespace Cpu

/-- Write a general register. -/
def setX (c : Cpu) (d v : ℕ) : Cpu := { c with x := Function.update c.x d v }

/-- `sub sp, sp, #imm`. -/
def subSp (c : Cpu) (imm : ℕ) : Cpu := { c with sp := subWord c.sp imm }

/-- `stp xa, xb, [sp, #imm]`. -/
def stp (c : Cpu) (a b imm : ℕ) : Cpu :=
  { c with mem := (c.mem.store (c.sp + imm) 8 (c.x a)).store (c.sp + imm + 8) 8 (c.x b) }

/-- `mrs xd, reg`. -/
def mrs (c : Cpu) (d : ℕ) (reg : SysReg) : Cpu := c.setX d (c.sys reg)

/-- `add xd, xn, #imm`. -/
def addImm (c : Cpu) (d n imm : ℕ) : Cpu := c.setX d ((c.x n + imm) % 2 ^ 64)

/-- `ldr xd, [xn]`. -/
def ldr (c : Cpu) (d n : ℕ) : Cpu := c.setX d (c.mem.load (c.x n) 8)

/-- `mov sp, xn`. -/
def movSp (c : Cpu) (n : ℕ) : Cpu := { c with sp := c.x n }

/-- `lsr xd, xn, #imm`. -/
def lsr (c : Cpu) (d n imm : ℕ) : Cpu := c.setX d (c.x n >>> imm)

/-- `uxtw xd, wn`. -/
def uxtw (c : Cpu) (d n : ℕ) : Cpu := c.setX d (c.x n % 2 ^ 32)

end Cpu

namespace Syscall

/-- `ARCH_EXEC_CONT_SIZE`. -/
def archExecContSize : ℕ := 34 * 8

/-- `OFFSET_LOCAL_CPU_STACK`. -/
def offsetLocalCpuStack : ℕ := 8

/-- `ESR_EL1_EC_SHIFT`. -/
def esrEl1EcShift : ℕ := 26

/-- `ESR_EL1_EC_SVC_64`. -/
def esrEl1EcSvc64 : ℕ := 0b010101

/-- `SYNC_EL0_64`. -/
def syncEl0Type : ℕ := 8

/-- `NR_SYSCALL`. -/
def nrSyscall : ℕ := 64

/-- `KMK_SYS_poweroff`. -/
def kmkSysPoweroff : ℕ := 51

/-- `EBADSYSCALL`. -/
def ebadsyscall : ℤ := 202

/-- The functions that the table refers to. -/
inductive Handler where
  | sysNullPlaceholder
  | sysPoweroff
deriving DecidableEq, Repr

/-- What a handler returns; `sys_poweroff` returns nothing. -/
def Handler.result : Handler → Option ℤ
  | .sysNullPlaceholder => some (-ebadsyscall)
  | .sysPoweroff => none

/-- `syscall_table`. -/
def syscallTable (n : Fin nrSyscall) : Handler :=
  if n = kmkSysPoweroff then .sysPoweroff else .sysNullPlaceholder

/-- `exception_enter`. -/
def exceptionEnter (c : Cpu) : Cpu :=
  c.subSp archExecContSize
    |>.stp 0 1 (16 * 0)
    |>.stp 2 3 (16 * 1)
    |>.stp 4 5 (16 * 2)
    |>.stp 6 7 (16 * 3)
    |>.stp 8 9 (16 * 4)
    |>.stp 10 11 (16 * 5)
    |>.stp 12 13 (16 * 6)
    |>.stp 14 15 (16 * 7)
    |>.stp 16 17 (16 * 8)
    |>.stp 18 19 (16 * 9)
    |>.stp 20 21 (16 * 10)
    |>.stp 22 23 (16 * 11)
    |>.stp 24 25 (16 * 12)
    |>.stp 26 27 (16 * 13)
    |>.stp 28 29 (16 * 14)
    |>.mrs 21 .spEl0
    |>.mrs 22 .elrEl1
    |>.mrs 23 .spsrEl1
    |>.stp 30 21 (16 * 15)
    |>.stp 22 23 (16 * 16)

/-- `switch_to_cpu_stack`. -/
def switchToCpuStack (c : Cpu) : Cpu :=
  c.mrs 24 .tpidrEl1
    |>.addImm 24 24 offsetLocalCpuStack
    |>.ldr 24 24
    |>.movSp 24

/-- Where control goes: to the handler at `target`, which was loaded from `entry`, or to
`handle_sync`. -/
inductive Taken where
  | handler (entry target : ℕ) (c : Cpu)
  | handleSync (c : Cpu)

/-- `el0_syscall`, with `syscall_table` at `table`. -/
def el0Syscall (table : ℕ) (c : Cpu) : Taken :=
  let c := c.setX 27 table
  let c := c.uxtw 16 8
  let entry := (c.x 27 + c.x 16 <<< 3) % 2 ^ 64
  let c := c.setX 16 (c.mem.load entry 8)
  .handler entry (c.x 16) c

/-- `sync_el0_64`. -/
def syncEl064 (table : ℕ) (c : Cpu) : Taken :=
  let c := exceptionEnter c
  let c := switchToCpuStack c
  let c := c.mrs 25 .esrEl1
  let c := c.lsr 24 25 esrEl1EcShift
  if c.x 24 = esrEl1EcSvc64 then el0Syscall table c
  else .handleSync (c.setX 0 syncEl0Type |>.mrs 1 .esrEl1 |>.mrs 2 .elrEl1)

/-! ## The table in memory -/

/-- Where the linker has put the table and the handlers. -/
structure Linked where
  table : ℕ
  addr : Handler → ℕ
  fits : table + 8 * nrSyscall ≤ 2 ^ 64

/-- Memory holds the table, apart from the context that `exception_enter` saves below `sp`. -/
structure Linked.Loaded (L : Linked) (c : Cpu) : Prop where
  entry : ∀ n : Fin nrSyscall, c.mem.load (L.table + 8 * n) 8 = L.addr (syscallTable n)
  room : archExecContSize ≤ c.sp ∧ c.sp < 2 ^ 64
  apart : c.sp ≤ L.table ∨ L.table + 8 * nrSyscall ≤ c.sp - archExecContSize

/-- The number of the system call, `w8`. -/
def number (c : Cpu) : ℕ := c.x 8 % 2 ^ 32

/-- The handler that is branched to is loaded from an entry of the table, the one of the number if there
is one, and else one that holds the placeholder; but for that of `poweroff` it returns `-EBADSYSCALL`. -/
def Dispatches (L : Linked) (c : Cpu) : Prop :=
  ∃ (n : Fin nrSyscall) (c' : Cpu),
    syncEl064 L.table c = .handler (L.table + 8 * n) (L.addr (syscallTable n)) c' ∧
      (if number c < nrSyscall then n = number c else syscallTable n = .sysNullPlaceholder) ∧
      (number c ≠ kmkSysPoweroff → (syscallTable n).result = some (-ebadsyscall))

variable {L : Linked} {c : Cpu}

/-- Every other entry of the table holds the placeholder. -/
lemma syscallTable_of_ne {n : Fin nrSyscall} (h : (n : ℕ) ≠ kmkSysPoweroff) :
    syscallTable n = .sysNullPlaceholder := if_neg h

/-- Saving the context writes to the stack only. -/
lemma exceptionEnter_load {a : ℕ} (hroom : archExecContSize ≤ c.sp ∧ c.sp < 2 ^ 64)
    (h : c.sp ≤ a ∨ a + 8 ≤ c.sp - archExecContSize) :
    (exceptionEnter c).mem.load a 8 = c.mem.load a 8 := by
  have hsp : subWord c.sp archExecContSize = c.sp - archExecContSize :=
    subWord_of_le hroom.2 hroom.1
  apply Mem.load_congr
  intro y h1 h2
  simp only [exceptionEnter, Cpu.stp, Cpu.subSp, Cpu.mrs, Cpu.setX, hsp]
  simp only [archExecContSize] at *
  iterate 34 rw [Mem.store_of_not_mem (by omega)]

/-- What `el0_syscall` loads and branches to. -/
lemma syncEl064_svc (table : ℕ) (hsvc : c.sys .esrEl1 >>> esrEl1EcShift = esrEl1EcSvc64) :
    ∃ c', syncEl064 table c = .handler ((table + 8 * number c) % 2 ^ 64)
      ((exceptionEnter c).mem.load ((table + 8 * number c) % 2 ^ 64) 8) c' := by
  have hentry : (table + number c <<< 3) % 2 ^ 64 = (table + 8 * number c) % 2 ^ 64 := by
    rw [Nat.shiftLeft_eq]
    omega
  rw [← hentry]
  exact ⟨_, if_pos hsvc⟩

/-- A word of the table is not touched by the entry code. -/
lemma Linked.Loaded.load (hL : L.Loaded c) (n : Fin nrSyscall) :
    (exceptionEnter c).mem.load (L.table + 8 * n) 8 = L.addr (syscallTable n) := by
  have hn : (n : ℕ) < 64 := n.isLt
  have hapart := hL.apart
  simp only [nrSyscall] at hapart
  rw [exceptionEnter_load hL.room (by omega)]
  exact hL.entry n

/-- A number in the table is dispatched to its entry. -/
lemma dispatches_of_lt (hsvc : c.sys .esrEl1 >>> esrEl1EcShift = esrEl1EcSvc64) (hL : L.Loaded c)
    (h : number c < nrSyscall) : Dispatches L c := by
  obtain ⟨c', hc'⟩ := syncEl064_svc L.table hsvc
  have hentry : (L.table + 8 * number c) % 2 ^ 64 = L.table + 8 * number c := by
    have hfits := L.fits
    apply Nat.mod_eq_of_lt
    omega
  have hload := hL.load ⟨number c, h⟩
  rw [hentry, hload] at hc'
  refine ⟨⟨number c, h⟩, c', hc', ?_, fun hne => ?_⟩
  · rw [if_pos h]
  · rw [syscallTable_of_ne hne]
    rfl

/-- The word that is loaded for a number outside the table is not in the table. -/
lemma number_lt_of_dispatches (hsvc : c.sys .esrEl1 >>> esrEl1EcShift = esrEl1EcSvc64)
    (h : Dispatches L c) : number c < nrSyscall := by
  obtain ⟨c', hc'⟩ := syncEl064_svc L.table hsvc
  obtain ⟨n, c₁, e, -⟩ := h
  rw [hc'] at e
  have hentry : (L.table + 8 * number c) % 2 ^ 64 = L.table + 8 * n := (Taken.handler.inj e).1
  have hlt : number c < 2 ^ 32 := Nat.mod_lt _ (by norm_num)
  have hn : (n : ℕ) < 64 := n.isLt
  have hfits := L.fits
  simp only [nrSyscall] at hfits ⊢
  omega

/-- The branch of a system call is to an entry of the table exactly if the number is one of its
entries. -/
theorem dispatches_iff (hsvc : c.sys .esrEl1 >>> esrEl1EcShift = esrEl1EcSvc64) (hL : L.Loaded c) :
    Dispatches L c ↔ number c < nrSyscall :=
  ⟨number_lt_of_dispatches hsvc, dispatches_of_lt hsvc hL⟩

/-- A table at `0x80000` in memory that is otherwise zero. -/
def exampleLinked : Linked where
  table := 0x80000
  addr
    | .sysNullPlaceholder => 0x81000
    | .sysPoweroff => 0x82000
  fits := by decide

/-- A core that takes the system call `n`. -/
def exampleCpu (n : ℕ) : Cpu where
  x r := if r = 8 then n else 0
  sp := 0x90000
  sys
    | .esrEl1 => 0x56000000
    | .tpidrEl1 => 0xA0000
    | .spEl0 | .elrEl1 | .spsrEl1 => 0
  mem a :=
    if h : 0x80000 ≤ a ∧ a < 0x80000 + 8 * nrSyscall then
      UInt8.ofNat (exampleLinked.addr
        (syscallTable ⟨(a - 0x80000) / 8, by simp only [nrSyscall] at *; omega⟩) / 256 ^ (a % 8))
    else 0

/-- The table of the example is in memory. -/
lemma exampleCpu_loaded (n : ℕ) : exampleLinked.Loaded (exampleCpu n) where
  entry := (by decide : ∀ m : Fin nrSyscall,
    (exampleCpu 0).mem.load (exampleLinked.table + 8 * m) 8 = exampleLinked.addr (syscallTable m))
  room := (by decide : archExecContSize ≤ 0x90000 ∧ 0x90000 < 2 ^ 64)
  apart := (by decide : 0x90000 ≤ 0x80000 ∨ 0x80000 + 8 * nrSyscall ≤ 0x90000 - archExecContSize)

/-- The system call `KMK_SYS_poweroff`. -/
theorem dispatches_poweroff :
    exampleLinked.Loaded (exampleCpu 51) ∧ Dispatches exampleLinked (exampleCpu 51) :=
  ⟨exampleCpu_loaded 51,
    (dispatches_iff (c := exampleCpu 51) (by decide) (exampleCpu_loaded 51)).2 (by decide)⟩

/-- The number 64 loads the word after the table, and branches to the address `0`. -/
theorem dispatch_past_table : exampleLinked.Loaded (exampleCpu 64) ∧
    (∃ c', syncEl064 exampleLinked.table (exampleCpu 64) = .handler (0x80000 + 8 * 64) 0 c') ∧
    ¬ Dispatches exampleLinked (exampleCpu 64) := by
  have hsvc : (exampleCpu 64).sys .esrEl1 >>> esrEl1EcShift = esrEl1EcSvc64 := by decide
  have hL := exampleCpu_loaded 64
  refine ⟨hL, ?_, fun h => absurd (number_lt_of_dispatches hsvc h) (by decide)⟩
  obtain ⟨c', hc'⟩ := syncEl064_svc exampleLinked.table hsvc
  have hentry : (exampleLinked.table + 8 * number (exampleCpu 64)) % 2 ^ 64 = 0x80000 + 8 * 64 := by
    decide
  have hload : (exampleCpu 64).mem.load (0x80000 + 8 * 64) 8 = 0 := by decide
  have hkept := exceptionEnter_load (a := 0x80000 + 8 * 64) hL.room (by decide)
  rw [hentry, hkept, hload] at hc'
  exact ⟨c', hc'⟩

end Syscall

end KingdoKernel
