import KingdoKernel.Bitops
import KingdoKernel.Syscall

/-!
# Entry to and exit from exceptions

The rest of `arch/aarch64/irq/irq_entry.S` and `irq_entry.c`: `exception_exit`, `switch_to_thread_ctx`, the
paths `irq_el1h`, `irq_el0_64`, `sync_el1h` and `sync_el0_64` up to `eret`, the vector table, and
`handle_sync`; and `plat_handle_irq` (`arch/aarch64/plat/raspi3/irq/irq.c`). Of the C functions the decisions,
the results and the stops in `BUG` are modelled; what they do to registers and memory besides is a parameter
(`Respects` says what is asked of it). `exception_enter` and `exception_exit` are a pair: what the one saves the other restores
(`exceptionExit_restores`), whatever happened to the registers in between.
-/

namespace KingdoKernel

namespace Cpu

/-- `ldp xa, xb, [sp, #imm]`. -/
def ldp (c : Cpu) (a b imm : ℕ) : Cpu :=
  (c.setX a (c.mem.load (c.sp + imm) 8)).setX b (c.mem.load (c.sp + imm + 8) 8)

/-- `str xn, [sp, #imm]`. -/
def str (c : Cpu) (n imm : ℕ) : Cpu := { c with mem := c.mem.store (c.sp + imm) 8 (c.x n) }

/-- `msr reg, xn`. -/
def msr (c : Cpu) (reg : SysReg) (n : ℕ) : Cpu := { c with sys := Function.update c.sys reg (c.x n) }

/-- `add sp, sp, #imm`. -/
def addSp (c : Cpu) (imm : ℕ) : Cpu := { c with sp := (c.sp + imm) % 2 ^ 64 }

/-- The return of an `int`, in `w0`; the upper half of `x0` is as it was left. -/
def setW0 (c : Cpu) (v : ℤ) : Cpu := c.setX 0 (c.x 0 / 2 ^ 32 * 2 ^ 32 + (v % 2 ^ 32).toNat)

/- The equations are used as rewriting steps, not up to unfolding: the kernel would compare whole states. -/

/-- The registers after one has been written. -/
@[simp] lemma setX_x (c : Cpu) (d v : ℕ) : (c.setX d v).x = Function.update c.x d v := (rfl)

/-- Writing a register keeps `sp`. -/
@[simp] lemma setX_sp (c : Cpu) (d v : ℕ) : (c.setX d v).sp = c.sp := (rfl)

/-- Writing a register keeps the system registers. -/
@[simp] lemma setX_sys (c : Cpu) (d v : ℕ) : (c.setX d v).sys = c.sys := (rfl)

/-- Writing a register keeps memory. -/
@[simp] lemma setX_mem (c : Cpu) (d v : ℕ) : (c.setX d v).mem = c.mem := (rfl)

/-- `sub sp, sp, #imm` keeps the general registers. -/
@[simp] lemma subSp_x (c : Cpu) (imm : ℕ) : (c.subSp imm).x = c.x := (rfl)

/-- `sub sp, sp, #imm` moves `sp`. -/
@[simp] lemma subSp_sp (c : Cpu) (imm : ℕ) : (c.subSp imm).sp = subWord c.sp imm := (rfl)

/-- `sub sp, sp, #imm` keeps the system registers. -/
@[simp] lemma subSp_sys (c : Cpu) (imm : ℕ) : (c.subSp imm).sys = c.sys := (rfl)

/-- `sub sp, sp, #imm` keeps memory. -/
@[simp] lemma subSp_mem (c : Cpu) (imm : ℕ) : (c.subSp imm).mem = c.mem := (rfl)

/-- `stp` keeps the general registers. -/
@[simp] lemma stp_x (c : Cpu) (a b imm : ℕ) : (c.stp a b imm).x = c.x := (rfl)

/-- `stp` keeps `sp`. -/
@[simp] lemma stp_sp (c : Cpu) (a b imm : ℕ) : (c.stp a b imm).sp = c.sp := (rfl)

/-- `stp` keeps the system registers. -/
@[simp] lemma stp_sys (c : Cpu) (a b imm : ℕ) : (c.stp a b imm).sys = c.sys := (rfl)

/-- `mrs` reads one system register. -/
@[simp] lemma mrs_x (c : Cpu) (d : ℕ) (reg : SysReg) :
    (c.mrs d reg).x = Function.update c.x d (c.sys reg) := (rfl)

/-- `mrs` keeps `sp`. -/
@[simp] lemma mrs_sp (c : Cpu) (d : ℕ) (reg : SysReg) : (c.mrs d reg).sp = c.sp := (rfl)

/-- `mrs` keeps the system registers. -/
@[simp] lemma mrs_sys (c : Cpu) (d : ℕ) (reg : SysReg) : (c.mrs d reg).sys = c.sys := (rfl)

/-- `mrs` keeps memory. -/
@[simp] lemma mrs_mem (c : Cpu) (d : ℕ) (reg : SysReg) : (c.mrs d reg).mem = c.mem := (rfl)

/-- `ldp` loads two registers. -/
@[simp] lemma ldp_x (c : Cpu) (a b imm : ℕ) : (c.ldp a b imm).x = Function.update
    (Function.update c.x a (c.mem.load (c.sp + imm) 8)) b (c.mem.load (c.sp + imm + 8) 8) := (rfl)

/-- `ldp` keeps `sp`. -/
@[simp] lemma ldp_sp (c : Cpu) (a b imm : ℕ) : (c.ldp a b imm).sp = c.sp := (rfl)

/-- `ldp` keeps the system registers. -/
@[simp] lemma ldp_sys (c : Cpu) (a b imm : ℕ) : (c.ldp a b imm).sys = c.sys := (rfl)

/-- `ldp` keeps memory. -/
@[simp] lemma ldp_mem (c : Cpu) (a b imm : ℕ) : (c.ldp a b imm).mem = c.mem := (rfl)

/-- `msr` keeps the general registers. -/
@[simp] lemma msr_x (c : Cpu) (reg : SysReg) (n : ℕ) : (c.msr reg n).x = c.x := (rfl)

/-- `msr` keeps `sp`. -/
@[simp] lemma msr_sp (c : Cpu) (reg : SysReg) (n : ℕ) : (c.msr reg n).sp = c.sp := (rfl)

/-- `msr` writes one system register. -/
@[simp] lemma msr_sys (c : Cpu) (reg : SysReg) (n : ℕ) :
    (c.msr reg n).sys = Function.update c.sys reg (c.x n) := (rfl)

/-- `msr` keeps memory. -/
@[simp] lemma msr_mem (c : Cpu) (reg : SysReg) (n : ℕ) : (c.msr reg n).mem = c.mem := (rfl)

/-- `add sp, sp, #imm` keeps the general registers. -/
@[simp] lemma addSp_x (c : Cpu) (imm : ℕ) : (c.addSp imm).x = c.x := (rfl)

/-- `add sp, sp, #imm` moves `sp`. -/
@[simp] lemma addSp_sp (c : Cpu) (imm : ℕ) : (c.addSp imm).sp = (c.sp + imm) % 2 ^ 64 := (rfl)

/-- `add sp, sp, #imm` keeps the system registers. -/
@[simp] lemma addSp_sys (c : Cpu) (imm : ℕ) : (c.addSp imm).sys = c.sys := (rfl)

/-- `add sp, sp, #imm` keeps memory. -/
@[simp] lemma addSp_mem (c : Cpu) (imm : ℕ) : (c.addSp imm).mem = c.mem := (rfl)

/-- What the caller finds in `w0`. -/
lemma setW0_w0 (c : Cpu) (v : ℤ) : (((c.setW0 v).x 0 % 2 ^ 32 : ℕ) : ℤ) = v % 2 ^ 32 := by
  rw [setW0, setX_x, Function.update_self]
  omega

/-- A pair stored after the first `n` words. -/
lemma stp_storeWords {c : Cpu} {m : Mem} {f : ℕ → ℕ} {s n a b imm : ℕ}
    (h : c.mem = m.storeWords s f n) (hs : c.sp = s) (himm : imm = 8 * n) (ha : c.x a = f n)
    (hb : c.x b = f (n + 1)) : (c.stp a b imm).mem = m.storeWords s f (n + 2) := by
  subst hs himm
  rw [stp, h, ha, hb]
  rfl

end Cpu

namespace Exception
open Syscall

/-- `OFFSET_CURRENT_EXEC_CTX`. -/
def offsetCurrentExecCtx : ℕ := 0

/-- `exception_exit` up to its `eret`. -/
def exceptionExit (c : Cpu) : Cpu :=
  c.ldp 22 23 (16 * 16)
    |>.ldp 30 21 (16 * 15)
    |>.msr .spEl0 21
    |>.msr .elrEl1 22
    |>.msr .spsrEl1 23
    |>.ldp 0 1 (16 * 0)
    |>.ldp 2 3 (16 * 1)
    |>.ldp 4 5 (16 * 2)
    |>.ldp 6 7 (16 * 3)
    |>.ldp 8 9 (16 * 4)
    |>.ldp 10 11 (16 * 5)
    |>.ldp 12 13 (16 * 6)
    |>.ldp 14 15 (16 * 7)
    |>.ldp 16 17 (16 * 8)
    |>.ldp 18 19 (16 * 9)
    |>.ldp 20 21 (16 * 10)
    |>.ldp 22 23 (16 * 11)
    |>.ldp 24 25 (16 * 12)
    |>.ldp 26 27 (16 * 13)
    |>.ldp 28 29 (16 * 14)
    |>.addSp archExecContSize

/-- `switch_to_thread_ctx`. -/
def switchToThreadCtx (c : Cpu) : Cpu :=
  c.mrs 24 .tpidrEl1
    |>.addImm 24 24 offsetCurrentExecCtx
    |>.ldr 24 24
    |>.movSp 24

/-- The words of a context, in the order in which they are saved. -/
def word (c : Cpu) (k : ℕ) : ℕ :=
  if k < 31 then c.x k
  else if k = 31 then c.sys .spEl0
  else if k = 32 then c.sys .elrEl1
  else c.sys .spsrEl1

/-- The end of `exception_enter`, after `x0` to `x29` have been stored. -/
lemma enterTail_mem {c d : Cpu} {s : ℕ} (hx : d.x = c.x) (hsys : d.sys = c.sys) (hsp : d.sp = s)
    (h : d.mem = c.mem.storeWords s (word c) 30) :
    (d.mrs 21 .spEl0 |>.mrs 22 .elrEl1 |>.mrs 23 .spsrEl1 |>.stp 30 21 (16 * 15)
      |>.stp 22 23 (16 * 16)).mem = c.mem.storeWords s (word c) 34 := by
  apply Cpu.stp_storeWords
  · apply Cpu.stp_storeWords
    · exact h
    · exact hsp
    · rfl
    · simp [word, hx]
    · simp [word, hsys]
  · exact hsp
  · rfl
  · simp [word, hsys]
  · simp [word, hsys]

/-- `exception_enter` stores the words one after the other. -/
lemma exceptionEnter_mem (c : Cpu) :
    (exceptionEnter c).mem = c.mem.storeWords (subWord c.sp archExecContSize) (word c) 34 := by
  rw [exceptionEnter]
  refine enterTail_mem ?_ ?_ ?_ ?_
  · simp only [Cpu.stp_x, Cpu.subSp_x]
  · simp only [Cpu.stp_sys, Cpu.subSp_sys]
  · simp only [Cpu.stp_sp, Cpu.subSp_sp]
  · iterate 15
      apply Cpu.stp_storeWords
      rotate_left
      · simp
      · rfl
      · simp [word]
      · simp [word]
    rw [Mem.storeWords, Cpu.subSp_mem]

/-- `exception_enter` makes room for the context. -/
lemma exceptionEnter_sp (c : Cpu) : (exceptionEnter c).sp = subWord c.sp archExecContSize := by
  simp only [exceptionEnter, Cpu.stp_sp, Cpu.mrs_sp, Cpu.subSp_sp]

/-- `exception_enter` keeps the system registers. -/
lemma exceptionEnter_sys (c : Cpu) : (exceptionEnter c).sys = c.sys := by
  simp only [exceptionEnter, Cpu.stp_sys, Cpu.mrs_sys, Cpu.subSp_sys]

/-- `exception_exit` keeps memory. -/
lemma exceptionExit_mem (c : Cpu) : (exceptionExit c).mem = c.mem := by
  simp only [exceptionExit, Cpu.addSp_mem, Cpu.ldp_mem, Cpu.msr_mem]

/-- `exception_exit` gives the room of the context back. -/
lemma exceptionExit_sp (c : Cpu) : (exceptionExit c).sp = (c.sp + archExecContSize) % 2 ^ 64 := by
  simp only [exceptionExit, Cpu.addSp_sp, Cpu.ldp_sp, Cpu.msr_sp]

/-- `exception_exit` loads the words from where they were saved. -/
lemma exceptionExit_word (c : Cpu) {k : ℕ} (hk : k < 34) :
    word (exceptionExit c) k = c.mem.load (c.sp + 8 * k) 8 := by
  interval_cases k <;> simp [exceptionExit, word]

/-- The other system registers are left alone. -/
lemma exceptionExit_tpidr (c : Cpu) : (exceptionExit c).sys .tpidrEl1 = c.sys .tpidrEl1 := by
  simp [exceptionExit]

/-- Memory outside the context is not written. -/
lemma exceptionEnter_of_not_mem {c : Cpu} (hroom : archExecContSize ≤ c.sp ∧ c.sp < 2 ^ 64) {a : ℕ}
    (ha : a < c.sp - archExecContSize ∨ c.sp ≤ a) : (exceptionEnter c).mem a = c.mem a := by
  rw [exceptionEnter_mem, subWord_of_le hroom.2 hroom.1]
  apply Mem.storeWords_of_not_mem
  simp only [archExecContSize] at *
  omega

/-- The registers and the context fit in 64 bits. -/
def Fits (c : Cpu) : Prop := ∀ k < 34, word c k < 2 ^ 64

/-- The words of a context where it has been saved. -/
lemma exceptionEnter_load_word {c : Cpu} (hroom : archExecContSize ≤ c.sp ∧ c.sp < 2 ^ 64)
    (hfits : Fits c) {k : ℕ} (hk : k < 34) :
    (exceptionEnter c).mem.load (c.sp - archExecContSize + 8 * k) 8 = word c k := by
  rw [exceptionEnter_mem, subWord_of_le hroom.2 hroom.1]
  exact Mem.load_storeWords hk (hfits k hk)

/-- What `exception_enter` has saved `exception_exit` restores, when the stack pointer and the saved context
are as they were. -/
lemma exceptionExit_restores {c d : Cpu} (hroom : archExecContSize ≤ c.sp ∧ c.sp < 2 ^ 64)
    (hfits : Fits c) (hsp : d.sp = c.sp - archExecContSize)
    (hm : ∀ a, c.sp - archExecContSize ≤ a → a < c.sp → d.mem a = (exceptionEnter c).mem a) :
    (∀ k < 34, word (exceptionExit d) k = word c k) ∧ (exceptionExit d).sp = c.sp := by
  refine ⟨fun k hk => ?_, ?_⟩
  · rw [exceptionExit_word d hk, hsp, ← exceptionEnter_load_word hroom hfits hk]
    refine Mem.load_congr fun a h1 h2 => hm a ?_ ?_
    · omega
    · simp only [archExecContSize] at *
      omega
  · rw [exceptionExit_sp, hsp, Nat.sub_add_cancel hroom.1, Nat.mod_eq_of_lt hroom.2]

/-! ## Taking an exception -/

/-- A core in execution. -/
structure Core where
  cpu : Cpu
  pc : ℕ
  pstate : ℕ

/-- Where an exception comes from, in the order of the vector table. -/
inductive Source where
  | currentSp0 | currentSpx | lower64 | lower32
deriving DecidableEq, Repr

/-- The kinds of exceptions, in the order of the vector table. -/
inductive Kind where
  | sync | irq | fiq | serror
deriving DecidableEq, Repr

/-- The exception level, the stack pointer and the execution state in use, from the processor state. -/
def source (pstate : ℕ) : Source :=
  if pstate % 32 = 0 then .lower64
  else if pstate % 32 = 4 then .currentSp0
  else if pstate % 32 = 5 then .currentSpx
  else .lower32

/-- The entry of the vector table that the core branches to. -/
def vectorIndex (s : Source) (k : Kind) : ℕ := 4 * s.ctorIdx + k.ctorIdx

/-- The labels of `el1_vector`. -/
inductive Label where
  | syncEl1t | irqEl1t | fiqEl1t | errorEl1t
  | syncEl1h | irqEl1h | fiqEl1h | errorEl1h
  | syncEl064 | irqEl064 | fiqEl064 | errorEl064
  | syncEl032 | irqEl032 | fiqEl032 | errorEl032
deriving DecidableEq, Repr

/-- `el1_vector`. -/
def el1Vector : List Label :=
  [.syncEl1t, .irqEl1t, .fiqEl1t, .errorEl1t, .syncEl1h, .irqEl1h, .fiqEl1h, .errorEl1h,
    .syncEl064, .irqEl064, .fiqEl064, .errorEl064, .syncEl032, .irqEl032, .fiqEl032, .errorEl032]

/-- What the core does on taking an exception: the return address and the state are kept. -/
def Core.trap (c : Core) : Cpu :=
  { c.cpu with sys := Function.update (Function.update c.cpu.sys .elrEl1 c.pc) .spsrEl1 c.pstate }

/-- A synchronous exception leaves its cause in `ESR_EL1` too. -/
def Core.trapSync (c : Core) (esr : ℕ) : Cpu :=
  { c.trap with sys := Function.update c.trap.sys .esrEl1 esr }

/-- `eret`. -/
def eret (c : Cpu) : Core := ⟨c, c.sys .elrEl1, c.sys .spsrEl1⟩

/-! ## `irq_entry.c` -/

/-- `GET_ESR_EL1_EC`. -/
def getEsrEl1Ec (esr : ℕ) : ℕ := esr >>> esrEl1EcShift &&& (2 ^ 6 - 1)

/-- `ESR_EL1_EC_WFI_WFE`. -/
def esrEl1EcWfiWfe : ℕ := 0b000001

/-- `ESR_EL1_EC_IABT_LEL`. -/
def esrEl1EcIabtLel : ℕ := 0b100000

/-- `ESR_EL1_EC_DABT_LEL`. -/
def esrEl1EcDabtLel : ℕ := 0b100100

/-- `ESR_EL1_EC_DABT_CEL`. -/
def esrEl1EcDabtCel : ℕ := 0b100101

/-- `SYNC_EL1h`. -/
def syncEl1hType : ℕ := 4

/-- `handle_sync`: the other classes end in `BUG`. `fix_addr` is never set. -/
def handleSync (type esr address : ℕ) : Except Fault ℕ :=
  let esrEc := getEsrEl1Ec esr
  if type < syncEl0Type ∧ esrEc ≠ esrEl1EcDabtCel then .error (.bugOn "1")
  else if esrEc = esrEl1EcWfiWfe then .ok address
  else if esrEc = esrEl1EcIabtLel then .ok address
  else if esrEc = esrEl1EcDabtLel then .ok address
  else if esrEc = esrEl1EcDabtCel then
    let fixAddr := 0
    if fixAddr ≠ 0 then .ok fixAddr else .ok address
  else .error (.bugOn "Exception type: %d, ESR: 0x%lx, Fault address: 0x%lx, EC 0b%b\n")

/-! ## `irq.c` and `smp.c` -/

/-- `INT_SRC_TIMER1`. -/
def intSrcTimer1 : ℕ := 0x002

/-- `IRQ_UART_BIT`. -/
def irqUartBit : BitVec 32 := 1 <<< (32 + 25 - 32)

/-- The registers of the interrupt controller that `plat_handle_irq` reads. -/
structure IrqRegs where
  /-- `core_irq_source[cpuid]` -/
  source : BitVec 32
  /-- `BCM2835_IRQ_PENDING2` -/
  pending2 : BitVec 32

/-- What `plat_handle_irq` calls. -/
inductive IrqWork where
  | handleTimerIrq | uartIrqHandler | nothing
deriving DecidableEq, Repr

/-- `plat_handle_irq`. Without a source the shift is by 64, which is undefined; that it does not give the
timer is assumed. -/
def platHandleIrq (cpuid : ℕ) (r : IrqRegs) : Except Fault IrqWork :=
  let irq := 1 <<< Bitops.ctzl (r.source.setWidth 64)
  if irq = intSrcTimer1 then .ok .handleTimerIrq
  else if cpuid ≠ 0 then .error (.bugOn "cpuid != 0")
  else if r.pending2 ≠ 0 ∧ r.pending2 &&& irqUartBit ≠ 0 then .ok .uartIrqHandler
  else .ok .nothing

/-- The lowest source of an interrupt is the timer of the core. -/
def IrqRegs.Timer (r : IrqRegs) : Prop := r.source.getLsbD 1 = true ∧ r.source.getLsbD 0 = false

instance (r : IrqRegs) : Decidable r.Timer := inferInstanceAs (Decidable (_ ∧ _))

/-- `sizeof(struct per_cpu_info)`. -/
def sizeofPerCpuInfo : ℕ := 64

/-- `smp_get_cpu_id`, with `cpu_info` at `cpuInfo`. -/
def smpGetCpuId (cpuInfo : ℕ) (c : Cpu) : ℕ :=
  subWord (c.sys .tpidrEl1) cpuInfo / sizeofPerCpuInfo % 2 ^ 32

/-- The source is that of the timer when its bit is the lowest one. -/
lemma timer_iff (r : IrqRegs) : 1 <<< Bitops.ctzl (r.source.setWidth 64) = intSrcTimer1 ↔ r.Timer := by
  have hpow : (1 <<< Bitops.ctzl (r.source.setWidth 64) = intSrcTimer1) ↔
      Bitops.ctzl (r.source.setWidth 64) = 1 := by
    rw [Nat.one_shiftLeft, intSrcTimer1]
    exact Nat.pow_right_injective le_rfl |>.eq_iff (b := 1)
  rw [hpow, Bitops.ctzl_eq_iff (by decide)]
  constructor
  · rintro ⟨h1, h0⟩
    have h0 := h0 0 (by decide)
    rw [BitVec.getLsbD_setWidth] at h0 h1
    exact ⟨h1, h0⟩
  · rintro ⟨h1, h0⟩
    refine ⟨?_, fun i hi => ?_⟩
    · rw [BitVec.getLsbD_setWidth, h1]
      rfl
    · rw [Nat.lt_one_iff.1 hi, BitVec.getLsbD_setWidth, h0]
      rfl

/-- `plat_handle_irq` stops on another core than 0 on all interrupts but that of the timer. -/
lemma platHandleIrq_stops {cpuid : ℕ} {r : IrqRegs} (h : cpuid ≠ 0 ∧ ¬ r.Timer) :
    platHandleIrq cpuid r = .error (.bugOn "cpuid != 0") := by
  rw [platHandleIrq, if_neg (mt (timer_iff r).1 h.2), if_pos h.1]

/-- Else it returns. -/
lemma platHandleIrq_returns {cpuid : ℕ} {r : IrqRegs} (h : ¬ (cpuid ≠ 0 ∧ ¬ r.Timer)) :
    ∃ w, platHandleIrq cpuid r = .ok w := by
  rw [platHandleIrq]
  by_cases ht : r.Timer
  · exact ⟨_, if_pos ((timer_iff r).2 ht)⟩
  · rw [if_neg (mt (timer_iff r).1 ht), if_neg fun h0 => h ⟨h0, ht⟩]
    by_cases hu : r.pending2 ≠ 0 ∧ r.pending2 &&& irqUartBit ≠ 0
    · exact ⟨_, if_pos hu⟩
    · exact ⟨_, if_neg hu⟩

/-! ## Calls of C functions -/

/-- Where the linker has put things, and what the C functions do to registers and memory besides what is
modelled. -/
structure Env extends Linked where
  /-- where `cpu_info` is -/
  cpuInfo : ℕ
  /-- `handle_irq`, when it returns -/
  handleIrqBody : IrqWork → Cpu → Cpu
  /-- `handle_sync`, but for the value it returns -/
  handleSyncBody : Cpu → Cpu
  /-- a handler of the table, but for the value it returns -/
  handlerBody : Handler → Cpu → Cpu

/-- `bl handle_irq`, which is `plat_handle_irq`. -/
def Env.blHandleIrq (env : Env) (r : IrqRegs) (c : Cpu) : Except Fault Cpu := do
  let w ← platHandleIrq (smpGetCpuId env.cpuInfo c) r
  pure (env.handleIrqBody w c)

/-- `bl handle_sync`. -/
def Env.blHandleSync (env : Env) (c : Cpu) : Except Fault Cpu := do
  let x0 ← handleSync (c.x 0) (c.x 1) (c.x 2)
  pure ((env.handleSyncBody c).setX 0 x0)

/-- A call of a handler. -/
def Env.call (env : Env) (h : Handler) (c : Cpu) : Cpu :=
  h.result.elim (env.handlerBody h c) (env.handlerBody h c).setW0

/-- `blr` to an address: the handler that is there, if one is. -/
def Env.blr (env : Env) (target : ℕ) (c : Cpu) : Except Fault Cpu :=
  ([Handler.sysNullPlaceholder, .sysPoweroff].find? fun h => env.addr h = target).elim (.error .wild)
    fun h => .ok (env.call h c)

/-- `irq_el1h` and `irq_el0_64`. -/
def Env.irq (env : Env) (r : IrqRegs) (c : Cpu) : Except Fault Cpu := do
  let c ← env.blHandleIrq r (exceptionEnter c)
  pure (exceptionExit c)

/-- `sync_el1h`. -/
def Env.syncEl1h (env : Env) (c : Cpu) : Except Fault Cpu := do
  let c := exceptionEnter c
  let c := c.setX 0 syncEl1hType |>.mrs 1 .esrEl1 |>.mrs 2 .elrEl1
  let c ← env.blHandleSync c
  let c := c.str 0 (16 * 16)
  pure (exceptionExit c)

/-- `sync_el0_64`, with what follows the return of the handler. -/
def Env.syncEl064 (env : Env) (c : Cpu) : Except Fault Cpu :=
  match Syscall.syncEl064 env.table c with
  | .handler _ target c => do
    let c ← env.blr target c
    let c := switchToThreadCtx c
    let c := c.str 0 0
    pure (exceptionExit c)
  | .handleSync c => do
    let c ← env.blHandleSync c
    let c := switchToThreadCtx c
    pure (exceptionExit c)

/-- `unexpected_handler`, which the other entries of the vector table call. -/
def unexpectedHandler : Fault := .bugOn "[fatal error] unexpected_handler\n"

/-- An interrupt that finds `r` in the interrupt controller, from the instruction at `pc` back to it. -/
def Env.interrupt (env : Env) (c : Core) (r : IrqRegs) : Except Fault Core :=
  match el1Vector[vectorIndex (source c.pstate) .irq]? with
  | some .irqEl1h | some .irqEl064 => do
    let d ← env.irq r c.trap
    pure (eret d)
  | _ => .error unexpectedHandler

/-- A synchronous exception with the given syndrome. -/
def Env.synchronous (env : Env) (c : Core) (esr : ℕ) : Except Fault Core :=
  match el1Vector[vectorIndex (source c.pstate) .sync]? with
  | some .syncEl1h => do
    let d ← env.syncEl1h (c.trapSync esr)
    pure (eret d)
  | some .syncEl064 => do
    let d ← env.syncEl064 (c.trapSync esr)
    pure (eret d)
  | _ => .error unexpectedHandler

/-! ## The ways in from EL1 and EL0 -/

section Vector

variable {env : Env} {c : Core}

/-- From the kernel an interrupt goes to `irq_el1h`. -/
lemma Env.interrupt_el1h (h : source c.pstate = .currentSpx) (r : IrqRegs) :
    env.interrupt c r = (do let d ← env.irq r c.trap; pure (eret d)) := by
  rw [Env.interrupt, h]
  rfl

/-- From a thread it goes to `irq_el0_64`. -/
lemma Env.interrupt_el0 (h : source c.pstate = .lower64) (r : IrqRegs) :
    env.interrupt c r = (do let d ← env.irq r c.trap; pure (eret d)) := by
  rw [Env.interrupt, h]
  rfl

/-- From the kernel a synchronous exception goes to `sync_el1h`. -/
lemma Env.synchronous_el1h (h : source c.pstate = .currentSpx) (esr : ℕ) :
    env.synchronous c esr = (do let d ← env.syncEl1h (c.trapSync esr); pure (eret d)) := by
  rw [Env.synchronous, h]
  rfl

/-- From a thread it goes to `sync_el0_64`. -/
lemma Env.synchronous_el0 (h : source c.pstate = .lower64) (esr : ℕ) :
    env.synchronous c esr = (do let d ← env.syncEl064 (c.trapSync esr); pure (eret d)) := by
  rw [Env.synchronous, h]
  rfl

/-- The way through an interrupt, when `plat_handle_irq` stops. -/
lemma Env.irq_stops {r : IrqRegs} {t : Cpu} (h : smpGetCpuId env.cpuInfo t ≠ 0 ∧ ¬ r.Timer) :
    env.irq r t = .error (.bugOn "cpuid != 0") := by
  have hid : smpGetCpuId env.cpuInfo (exceptionEnter t) = smpGetCpuId env.cpuInfo t := by
    rw [smpGetCpuId, exceptionEnter_sys, smpGetCpuId]
  rw [Env.irq, Env.blHandleIrq, hid, platHandleIrq_stops h]
  rfl

/-- The way through an interrupt, when it returns. -/
lemma Env.irq_returns {r : IrqRegs} {t : Cpu} (h : ¬ (smpGetCpuId env.cpuInfo t ≠ 0 ∧ ¬ r.Timer)) :
    ∃ w, env.irq r t = .ok (exceptionExit (env.handleIrqBody w (exceptionEnter t))) := by
  have hid : smpGetCpuId env.cpuInfo (exceptionEnter t) = smpGetCpuId env.cpuInfo t := by
    rw [smpGetCpuId, exceptionEnter_sys, smpGetCpuId]
  obtain ⟨w, hw⟩ := platHandleIrq_returns h
  refine ⟨w, ?_⟩
  rw [Env.irq, Env.blHandleIrq, hid, hw]
  rfl

/-- Branching to the placeholder. -/
lemma Env.blr_placeholder (t : Cpu) :
    env.blr (env.addr .sysNullPlaceholder) t =
      .ok ((env.handlerBody .sysNullPlaceholder t).setW0 (-ebadsyscall)) := by
  rw [Env.blr, List.find?_cons_of_pos (by simp)]
  rfl

end Vector

end Exception

end KingdoKernel
