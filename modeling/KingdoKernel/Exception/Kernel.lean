import KingdoKernel.Exception.Basic
import KingdoKernel.Lib.Machine

/-!
# Exceptions in the kernel

Code at EL1 is interrupted at any point, any number of times, by `irq_el1h` and by data aborts through
`sync_el1h`. `interrupts_transparent`: it does not notice. What the code may rely on is its registers and
the memory it works with, which lies outside the stack that exceptions need below its own and outside the
data of the handlers (`Program`); what the handlers must leave alone is all memory but these (`Respects`). The faulting
instruction of an abort is executed again, with the registers it had. On another core than 0 an interrupt
that is not the timer's does not return (`platHandleIrq_stops`).
-/

namespace KingdoKernel.Exception
open Syscall

/-- The registers that code at EL1 works with. -/
@[ext] structure Regs where
  x : Fin 31 → ℕ
  sp : ℕ
  spEl0 : ℕ
  tpidr : ℕ
  pc : ℕ
  pstate : ℕ

def Core.regs (c : Core) : Regs where
  x r := c.cpu.x r
  sp := c.cpu.sp
  spEl0 := c.cpu.sys .spEl0
  tpidr := c.cpu.sys .tpidrEl1
  pc := c.pc
  pstate := c.pstate

/-- The memory of the handlers: so many bytes of the stack, and their data. -/
structure Scratch where
  depth : ℕ
  data : Set ℕ

/-- The last `n` bytes below `s`, and the data. -/
def Scratch.area (H : Scratch) (n s : ℕ) : Set ℕ := {a | (s ≤ a + n ∧ a < s) ∨ a ∈ H.data}

/-- The registers hold 64 bits, the core is at EL1 with its own stack pointer, and the stack has room for a
context and the handlers, the context being apart from their data. -/
structure Regs.Ready (H : Scratch) (r : Regs) : Prop where
  x : ∀ n, r.x n < 2 ^ 64
  spEl0 : r.spEl0 < 2 ^ 64
  pc : r.pc < 2 ^ 64
  pstate : r.pstate < 2 ^ 64
  el1h : r.pstate % 32 = 5
  room : archExecContSize + H.depth ≤ r.sp ∧ r.sp < 2 ^ 64
  apart : ∀ a ∈ H.data, a < r.sp - archExecContSize ∨ r.sp ≤ a

/-- The memory that code works with, by its registers. -/
structure Program (H : Scratch) where
  live : Regs → Set ℕ
  apart : ∀ r, ∀ a ∈ live r, a ∉ H.area (archExecContSize + H.depth) r.sp

/-- The code cannot tell the states apart. -/
def Program.Agree {H : Scratch} (P : Program H) (c c' : Core) : Prop :=
  c.regs = c'.regs ∧ ∀ a ∈ P.live c.regs, c.cpu.mem a = c'.cpu.mem a

/-- A C function that finds its stack keeps the stack pointer, the thread pointer and all memory but that
stack and its own data. It may use all other registers. -/
def Respects (H : Scratch) (h : Cpu → Cpu) : Prop :=
  ∀ c, H.depth ≤ c.sp → (h c).sp = c.sp ∧ (h c).sys .tpidrEl1 = c.sys .tpidrEl1 ∧
    ∀ a ∉ H.area H.depth c.sp, (h c).mem a = c.mem a

namespace Program

variable {H : Scratch} {P : Program H} {c c' c'' : Core}

/-- Equal states. -/
lemma Agree.refl (P : Program H) (c : Core) : P.Agree c c := ⟨rfl, fun _ _ => rfl⟩

/-- From state to state. -/
lemma Agree.trans (h : P.Agree c c') (h' : P.Agree c' c'') : P.Agree c c'' := by
  refine ⟨h.1.trans h'.1, fun a ha => ?_⟩
  rw [h.2 a ha]
  refine h'.2 a ?_
  rw [← h.1]
  exact ha

end Program

/-! ## One exception -/

/-- The general registers in the context of an interrupted core. -/
lemma Core.trap_word_x (c : Core) {k : ℕ} (hk : k < 31) : word c.trap k = c.cpu.x k := by
  rw [word, if_pos hk]
  rfl

/-- The context of an interrupted core fits in 64 bits when its registers do. -/
lemma Core.fits_trap {c : Core} (hx : ∀ r : Fin 31, c.cpu.x r < 2 ^ 64) (hsp : c.cpu.sys .spEl0 < 2 ^ 64)
    (hpc : c.pc < 2 ^ 64) (hpstate : c.pstate < 2 ^ 64) : Fits c.trap := by
  intro k hk
  by_cases h31 : k < 31
  · rw [c.trap_word_x h31]
    exact hx ⟨k, h31⟩
  · obtain rfl | rfl | rfl : k = 31 ∨ k = 32 ∨ k = 33 := by omega
    · exact hsp
    · exact hpc
    · exact hpstate

/-- The stack has room for the context. -/
lemma Regs.Ready.room_context {H : Scratch} {r : Regs} (h : r.Ready H) :
    archExecContSize ≤ r.sp ∧ r.sp < 2 ^ 64 :=
  ⟨(Nat.le_add_right _ _).trans h.room.1, h.room.2⟩

/-- and for the handlers below it. -/
lemma Regs.Ready.room_depth {H : Scratch} {c : Core} {t : Cpu} (h : c.regs.Ready H) (ht : t.sp = c.cpu.sp) :
    H.depth ≤ (exceptionEnter t).sp := by
  have hroom : archExecContSize + H.depth ≤ t.sp ∧ t.sp < 2 ^ 64 := by
    rw [ht]
    exact h.room
  rw [exceptionEnter_sp, subWord_of_le hroom.2 (by omega)]
  omega

/-- The code at EL1 has such registers. -/
lemma Regs.Ready.fits {H : Scratch} {c : Core} (h : c.regs.Ready H) : Fits c.trap :=
  c.fits_trap h.x h.spEl0 h.pc h.pstate

/-- The core that comes back has the registers it had when the context has been restored. -/
lemma regs_eret {c : Core} {d : Cpu} (hw : ∀ k < 34, word d k = word c.trap k)
    (hsp : d.sp = c.cpu.sp) (htp : d.sys .tpidrEl1 = c.cpu.sys .tpidrEl1) :
    (eret d).regs = c.regs := by
  ext r
  · have h := hw r (r.isLt.trans (by decide))
    rw [c.trap_word_x r.isLt, word, if_pos r.isLt] at h
    exact h
  · exact hsp
  · exact hw 31 (by decide)
  · exact htp
  · exact hw 32 (by decide)
  · exact hw 33 (by decide)

/-- A core `t` that has taken an exception from `c`. -/
structure Trapped (c : Core) (t : Cpu) : Prop where
  word : ∀ k, word t k = word c.trap k
  sp : t.sp = c.cpu.sp
  tpidr : t.sys .tpidrEl1 = c.cpu.sys .tpidrEl1
  mem : t.mem = c.cpu.mem

/-- An interrupt. -/
lemma trapped_trap (c : Core) : Trapped c c.trap := ⟨fun _ => rfl, rfl, rfl, rfl⟩

/-- A synchronous exception leaves its syndrome besides. -/
lemma trapped_trapSync (c : Core) (esr : ℕ) : Trapped c (c.trapSync esr) :=
  ⟨fun _ => rfl, rfl, rfl, rfl⟩

/-- The way out of an exception at EL1, when the stack pointer is that of the entry and so is all memory that
the handlers may not write. -/
lemma Trapped.agree_exit {H : Scratch} {c : Core} {t d : Cpu} (ht : Trapped c t) (P : Program H)
    (h : c.regs.Ready H) (hsp : d.sp = (exceptionEnter t).sp)
    (htp : d.sys .tpidrEl1 = c.cpu.sys .tpidrEl1)
    (hm : ∀ a ∉ H.area H.depth (exceptionEnter t).sp, d.mem a = (exceptionEnter t).mem a) :
    P.Agree c (eret (exceptionExit d)) := by
  have hroom : archExecContSize ≤ t.sp ∧ t.sp < 2 ^ 64 := by
    rw [ht.sp]
    exact h.room_context
  have hcsp : c.regs.sp = t.sp := ht.sp.symm
  have hfits : Fits t := fun k hk => by
    rw [ht.word]
    exact h.fits k hk
  have henter : (exceptionEnter t).sp = t.sp - archExecContSize := by
    rw [exceptionEnter_sp, subWord_of_le hroom.2 hroom.1]
  rw [henter] at hsp hm
  obtain ⟨hw, hsp'⟩ := exceptionExit_restores hroom hfits hsp fun a h1 h2 => hm a <| by
    rintro (⟨-, h3⟩ | ha)
    · omega
    · have := h.apart a ha
      omega
  refine ⟨(regs_eret (fun k hk => (hw k hk).trans (ht.word k)) (hsp'.trans ht.sp) ?_).symm,
    fun a ha => ?_⟩
  · rw [exceptionExit_tpidr, htp]
  · -- what the code works with is apart from the context and from what the handlers write
    have hout : ¬ (t.sp ≤ a + (archExecContSize + H.depth) ∧ a < t.sp) ∧ a ∉ H.data := by
      have := P.apart _ a ha
      rw [Scratch.area, Set.mem_ofPred_eq, not_or, hcsp] at this
      exact this
    have e : (eret (exceptionExit d)).cpu.mem a = d.mem a := congrFun (exceptionExit_mem d) a
    rw [e, hm a, exceptionEnter_of_not_mem hroom (by omega), ht.mem]
    rintro (⟨h1, h2⟩ | hd)
    · omega
    · exact hout.2 hd

variable {H : Scratch} {env : Env} {c : Core}

/-- Code at EL1 uses its own stack pointer. -/
lemma Regs.Ready.source (h : c.regs.Ready H) : source c.pstate = .currentSpx := by
  have e : c.pstate % 32 = 5 := h.el1h
  rw [Exception.source, e]
  rfl

/-- An interrupt stops the kernel: it is not the timer's, and the core is not core 0. -/
def IrqStops (env : Env) (c : Core) (r : IrqRegs) : Prop :=
  smpGetCpuId env.cpuInfo c.cpu ≠ 0 ∧ ¬ r.Timer

instance (env : Env) (c : Core) (r : IrqRegs) : Decidable (IrqStops env c r) :=
  inferInstanceAs (Decidable (_ ∧ _))

/-- An interrupt at EL1 that returns. -/
lemma interrupt_agree (P : Program H) (h : c.regs.Ready H) (hirq : ∀ w, Respects H (env.handleIrqBody w))
    {r : IrqRegs} (hr : ¬ IrqStops env c r) : ∃ c', env.interrupt c r = .ok c' ∧ P.Agree c c' := by
  obtain ⟨w, hw⟩ := Env.irq_returns (t := c.trap) hr
  refine ⟨eret (exceptionExit (env.handleIrqBody w (exceptionEnter c.trap))), ?_, ?_⟩
  · rw [Env.interrupt_el1h h.source, hw]
    rfl
  · obtain ⟨hsp, htp, hm⟩ := hirq w (exceptionEnter c.trap) (h.room_depth rfl)
    refine (trapped_trap c).agree_exit P h hsp ?_ hm
    rw [htp, exceptionEnter_sys]
    rfl

/-- One that does not. -/
lemma interrupt_stops (h : c.regs.Ready H) {r : IrqRegs} (hr : IrqStops env c r) :
    ∃ e, env.interrupt c r = .error e := by
  refine ⟨.bugOn "cpuid != 0", ?_⟩
  rw [Env.interrupt_el1h h.source, Env.irq_stops (t := c.trap) hr]
  rfl

/-- A data abort of the current exception level is resolved by going back to where it came from. -/
lemma handleSync_dabtCel {type esr : ℕ} (address : ℕ) (h : getEsrEl1Ec esr = esrEl1EcDabtCel) :
    handleSync type esr address = .ok address := by
  simp [handleSync, h, esrEl1EcDabtCel, esrEl1EcWfiWfe, esrEl1EcIabtLel, esrEl1EcDabtLel]

/-- The return address stored into the context is the one that is there. -/
lemma str_elr {c : Core} (esr : ℕ) {m : Mem} (h : c.regs.Ready H) {a : ℕ}
    (hm : m a = (exceptionEnter (c.trapSync esr)).mem a) :
    m.store ((exceptionEnter (c.trapSync esr)).sp + 16 * 16) 8 c.pc a =
      (exceptionEnter (c.trapSync esr)).mem a := by
  have hfits : Fits (c.trapSync esr) := fun k hk => h.fits k hk
  have hroom : archExecContSize ≤ (c.trapSync esr).sp ∧ (c.trapSync esr).sp < 2 ^ 64 := h.room_context
  have hload := exceptionEnter_load_word (c := c.trapSync esr) hroom hfits (k := 32) (by decide)
  have hsp : (exceptionEnter (c.trapSync esr)).sp + 16 * 16 =
      (c.trapSync esr).sp - archExecContSize + 8 * 32 := by
    rw [exceptionEnter_sp, subWord_of_le hroom.2 hroom.1]
  have hpc : word (c.trapSync esr) 32 = c.pc := rfl
  rw [hpc] at hload
  rw [hsp]
  by_cases ha : (c.trapSync esr).sp - archExecContSize + 8 * 32 ≤ a ∧
      a < (c.trapSync esr).sp - archExecContSize + 8 * 32 + 8
  · have e := congrFun ((exceptionEnter (c.trapSync esr)).mem.store_load
      ((c.trapSync esr).sp - archExecContSize + 8 * 32) 8) a
    rw [hload, Mem.store, if_pos ha] at e
    rw [Mem.store, if_pos ha]
    exact e
  · rw [Mem.store, if_neg ha]
    exact hm

/-- A data abort at EL1: the core goes back to the instruction that caused it. -/
lemma abort_agree (P : Program H) (h : c.regs.Ready H) (hbody : Respects H env.handleSyncBody) {esr : ℕ}
    (hesr : getEsrEl1Ec esr = esrEl1EcDabtCel) :
    ∃ c', env.synchronous c esr = .ok c' ∧ P.Agree c c' := by
  generalize he : (((exceptionEnter (c.trapSync esr)).setX 0 syncEl1hType).mrs 1 .esrEl1).mrs 2 .elrEl1 = e
  have hesp : e.sp = (exceptionEnter (c.trapSync esr)).sp := by
    rw [← he, Cpu.mrs_sp, Cpu.mrs_sp, Cpu.setX_sp]
  have hemem : e.mem = (exceptionEnter (c.trapSync esr)).mem := by
    rw [← he, Cpu.mrs_mem, Cpu.mrs_mem, Cpu.setX_mem]
  have hesys : e.sys = (c.trapSync esr).sys := by
    rw [← he, Cpu.mrs_sys, Cpu.mrs_sys, Cpu.setX_sys, exceptionEnter_sys]
  have hetp : e.sys .tpidrEl1 = c.cpu.sys .tpidrEl1 := congrFun hesys .tpidrEl1
  have hx1 : e.x 1 = esr := by
    rw [← he]
    simp [exceptionEnter_sys, Core.trapSync]
  have hx2 : e.x 2 = c.pc := by
    rw [← he]
    simp [exceptionEnter_sys, Core.trapSync, Core.trap]
  obtain ⟨hsp, htp, hm⟩ := hbody e (by rw [hesp]; exact h.room_depth rfl)
  refine ⟨eret (exceptionExit (((env.handleSyncBody e).setX 0 c.pc).str 0 (16 * 16))), ?_, ?_⟩
  · have hcall : env.blHandleSync e = .ok ((env.handleSyncBody e).setX 0 c.pc) := by
      rw [Env.blHandleSync, hx1, hx2, handleSync_dabtCel _ hesr]
      rfl
    have hcode : env.syncEl1h (c.trapSync esr) =
        .ok (exceptionExit (((env.handleSyncBody e).setX 0 c.pc).str 0 (16 * 16))) := by
      rw [Env.syncEl1h, he, hcall]
      rfl
    rw [Env.synchronous_el1h h.source, hcode]
    rfl
  · refine (trapped_trapSync c esr).agree_exit P h (hsp.trans hesp) (htp.trans hetp) fun a ha => ?_
    have hma : (env.handleSyncBody e).mem a = (exceptionEnter (c.trapSync esr)).mem a := by
      rw [hm a (by rw [hesp]; exact ha), hemem]
    have e1 := str_elr esr h hma
    rw [← hesp, ← hsp] at e1
    exact e1

/-! ## Interrupted code -/

/-- A step of the code gives the same from states that it cannot tell apart. -/
def Program.Steps (P : Program H) (f : Core → Core) : Prop :=
  ∀ c c', c.regs.Ready H → P.Agree c c' → P.Agree (f c) (f c')

/-- What happens next: a step of the code, an interrupt, or a data abort. -/
inductive Happens where
  | code (f : Core → Core)
  | irq (r : IrqRegs)
  | abort (esr : ℕ)

/-- The step of the code, if it is one. -/
def Happens.code? : Happens → Option (Core → Core)
  | code f => some f
  | irq _ => none
  | abort _ => none

/-- The kernel at EL1. The code does not run out of stack. -/
def Env.kernel (env : Env) (P : Program H) : Machine Fault Core Happens Unit where
  enabled c
    | .code f => P.Steps f ∧ (f c).regs.Ready H
    | .irq _ => True
    | .abort esr => getEsrEl1Ec esr = esrEl1EcDabtCel
  exec c
    | .code f => .ok ((), f c)
    | .irq r => do
      let c ← env.interrupt c r
      pure ((), c)
    | .abort esr => do
      let c ← env.synchronous c esr
      pure ((), c)

/-- States that the code cannot tell apart are ready together. -/
lemma Program.Agree.ready {P : Program H} {c c' : Core} (h : P.Agree c c') (hc : c.regs.Ready H) :
    c'.regs.Ready H := by
  rw [← h.1]
  exact hc

/-- An exception that returns changes nothing that the code can see. -/
lemma kernel_exception (P : Program H) (hirq : ∀ w, Respects H (env.handleIrqBody w))
    (hbody : Respects H env.handleSyncBody) (h : c.regs.Ready H) {e : Happens}
    (hen : (env.kernel P).enabled c e) (he : e.code? = none) {o c'}
    (hex : (env.kernel P).exec c e = .ok (o, c')) : P.Agree c c' := by
  cases e with
  | code f => cases he
  | irq r =>
    obtain ⟨c1, e1, hex⟩ := bind_eq_ok.1 hex
    cases hex
    by_cases hr : IrqStops env c r
    · obtain ⟨e2, e3⟩ := interrupt_stops h hr
      rw [e1] at e3
      cases e3
    · obtain ⟨c2, e2, ha⟩ := interrupt_agree P h hirq hr
      rw [e1] at e2
      cases e2
      exact ha
  | abort esr =>
    obtain ⟨c1, e1, hex⟩ := bind_eq_ok.1 hex
    cases hex
    obtain ⟨c2, e2, ha⟩ := abort_agree P h hbody hen
    rw [e1] at e2
    cases e2
    exact ha

/-- The kernel stops on the interrupts on which `plat_handle_irq` does, and on nothing else. -/
lemma kernel_stops_iff (P : Program H) (hirq : ∀ w, Respects H (env.handleIrqBody w))
    (hbody : Respects H env.handleSyncBody) (h : c.regs.Ready H) {e : Happens}
    (hen : (env.kernel P).enabled c e) :
    (∃ x, (env.kernel P).exec c e = .error x) ↔ ∃ r, e = .irq r ∧ IrqStops env c r := by
  cases e with
  | code f => exact iff_of_false (by rintro ⟨x, hx⟩; cases hx) (by rintro ⟨r, hr, -⟩; cases hr)
  | irq r =>
    by_cases hr : IrqStops env c r
    · obtain ⟨x, hx⟩ := interrupt_stops h hr
      refine iff_of_true ⟨x, ?_⟩ ⟨r, rfl, hr⟩
      simp only [Env.kernel, hx, error_bind]
    · obtain ⟨c1, e1, -⟩ := interrupt_agree P h hirq hr
      refine iff_of_false ?_ ?_
      · rintro ⟨x, hx⟩
        simp only [Env.kernel, e1, ok_bind, pure_eq_ok] at hx
        cases hx
      · rintro ⟨r', e', hr'⟩
        cases e'
        exact hr hr'
  | abort esr =>
    obtain ⟨c1, e1, -⟩ := abort_agree P h hbody hen
    refine iff_of_false ?_ (by rintro ⟨r, hr, -⟩; cases hr)
    rintro ⟨x, hx⟩
    simp only [Env.kernel, e1, ok_bind, pure_eq_ok] at hx
    cases hx

/-- A run, compared with the code alone from a state that the code cannot tell from its start. -/
lemma kernel_run (P : Program H) (hirq : ∀ w, Respects H (env.handleIrqBody w))
    (hbody : Respects H env.handleSyncBody) {c c' : Core} {es os} (r : (env.kernel P).Run c es os c')
    (h : c.regs.Ready H) {d : Core} (hd : P.Agree d c) :
    P.Agree ((es.filterMap Happens.code?).foldl (fun c f => f c) d) c' ∧ c'.regs.Ready H := by
  induction r generalizing d with
  | nil => exact ⟨hd, h⟩
  | @cons c c1 c' e o es os hen hex r ih =>
    have hdr : d.regs.Ready H := by
      rw [hd.1]
      exact h
    cases hcode : e.code? with
    | some f =>
      cases e with
      | code f =>
        cases hcode
        cases hex
        exact ih hen.2 (hen.1 d c hdr hd)
      | irq r => cases hcode
      | abort esr => cases hcode
    | none =>
      have ha := kernel_exception P hirq hbody h hen hcode hex
      rw [List.filterMap_cons_none hcode]
      exact ih (ha.ready h) (hd.trans ha)

/-- Code at EL1 does not notice interrupts and data aborts, however many there are and wherever they come: at
the end its registers and the memory it works with are those of the code run by itself. No exception
faults, but for the interrupts that `plat_handle_irq` stops on: those of another core than 0 that are not
its timer's. -/
theorem interrupts_transparent (P : Program H) (hirq : ∀ w, Respects H (env.handleIrqBody w))
    (hbody : Respects H env.handleSyncBody) {c c' : Core} {es os} (r : (env.kernel P).Run c es os c')
    (h : c.regs.Ready H) :
    P.Agree ((es.filterMap Happens.code?).foldl (fun c f => f c) c) c' ∧
      ∀ e, (env.kernel P).enabled c' e → ((∃ x, (env.kernel P).exec c' e = .error x) ↔
        ∃ r, e = .irq r ∧ smpGetCpuId env.cpuInfo c'.cpu ≠ 0 ∧ ¬ r.Timer) := by
  obtain ⟨ha, h'⟩ := kernel_run P hirq hbody r h (.refl P c)
  exact ⟨ha, fun e hen => kernel_stops_iff P hirq hbody h' hen⟩

/-- Handlers that need 16 bytes of stack, and no data. -/
def exampleScratch : Scratch := ⟨16, ∅⟩

/-- A program that works with all other memory. -/
def exampleProgram : Program exampleScratch where
  live r := {a | ¬ (r.sp ≤ a + (archExecContSize + 16) ∧ a < r.sp)}
  apart _ a ha := by
    rintro (h | hd)
    · exact ha h
    · exact Set.notMem_empty a hd

/-- C functions that leave garbage in all general registers and on the stack. -/
def clobber (c : Cpu) : Cpu := { c with x := fun _ => 0xBAD, mem := c.mem.store (c.sp - 8) 8 0xBAD }

/-- Memory but their stack is as it was. -/
lemma clobber_mem {c : Cpu} (hsp : 16 ≤ c.sp) {a : ℕ} (ha : ¬ (c.sp ≤ a + 16 ∧ a < c.sp)) :
    (clobber c).mem a = c.mem a := by
  apply Mem.store_of_not_mem
  omega

/-- It respects the memory outside its stack. -/
lemma clobber_respects : Respects exampleScratch clobber :=
  fun _ hsp => ⟨rfl, rfl, fun _ ha => clobber_mem hsp fun h => ha (.inl h)⟩

/-- All C functions are like that. -/
def clobbering : Env where
  toLinked := exampleLinked
  cpuInfo := 0xA0000
  handleIrqBody _ := clobber
  handleSyncBody := clobber
  handlerBody _ := clobber

/-- A core at EL1. -/
def kernelCore : Core := ⟨exampleCpu 7, 0x80000, 5⟩

/-- Its stack pointer leaves room for the handlers. -/
lemma kernelCore_ready : kernelCore.regs.Ready exampleScratch where
  x := by decide
  spEl0 := by decide
  pc := by decide
  pstate := by decide
  el1h := by decide
  room := by decide
  apart _ h := absurd h (Set.notMem_empty _)

/-- `str x8, [x1]` and `add x1, x1, #8`. -/
def exampleStep (c : Core) : Core where
  cpu := { c.cpu.addImm 1 1 8 with mem := c.cpu.mem.store (c.cpu.x 1) 8 (c.cpu.x 8) }
  pc := c.pc + 4
  pstate := c.pstate

/-- What the step does depends on the registers, and on memory only where it leaves it. -/
lemma exampleStep_steps : exampleProgram.Steps exampleStep := by
  rintro c c' - ⟨hregs, hmem⟩
  have hx : ∀ r : Fin 31, c.cpu.x r = c'.cpu.x r := congrFun (congrArg Regs.x hregs)
  have hx1 : c.cpu.x 1 = c'.cpu.x 1 := hx 1
  have hx8 : c.cpu.x 8 = c'.cpu.x 8 := hx 8
  refine ⟨?_, fun a ha => ?_⟩
  · ext r
    · change Function.update c.cpu.x 1 _ r = Function.update c'.cpu.x 1 _ r
      rw [Function.update_apply, Function.update_apply, hx1, hx r]
    · exact (Regs.ext_iff.1 hregs).2.1
    · exact (Regs.ext_iff.1 hregs).2.2.1
    · exact (Regs.ext_iff.1 hregs).2.2.2.1
    · exact congrArg (fun r : Regs => r.pc + 4) hregs
    · exact (Regs.ext_iff.1 hregs).2.2.2.2.2
  · change c.cpu.mem.store (c.cpu.x 1) 8 (c.cpu.x 8) a = c'.cpu.mem.store (c'.cpu.x 1) 8 (c'.cpu.x 8) a
    rw [hx1, hx8, Mem.store, hmem a ha, Mem.store]

/-- The registers after the step. -/
lemma exampleStep_ready : (exampleStep kernelCore).regs.Ready exampleScratch where
  x := by decide
  spEl0 := by decide
  pc := by decide
  pstate := by decide
  el1h := by decide
  room := by decide
  apart _ h := absurd h (Set.notMem_empty _)

/-- A step of the code, an interrupt from the timer and a data abort; on core 0 one from the UART returns
as well. -/
theorem interrupts_transparent_clobbered : ∃ c',
    (clobbering.kernel exampleProgram).Run kernelCore
        [.code exampleStep, .irq ⟨2, 0⟩, .abort 0x96000000] [(), (), ()] c' ∧
      exampleProgram.Agree (exampleStep kernelCore) c' ∧
      ∀ x, (clobbering.kernel exampleProgram).exec c' (.irq ⟨0x100, 0x2000000⟩) ≠ .error x := by
  have hirq : ∀ w, Respects exampleScratch (clobbering.handleIrqBody w) := fun _ => clobber_respects
  have hbody : Respects exampleScratch clobbering.handleSyncBody := clobber_respects
  obtain ⟨c1, e1, h1⟩ := interrupt_agree exampleProgram exampleStep_ready hirq
    (r := ⟨2, 0⟩) (by decide)
  have habort : getEsrEl1Ec 0x96000000 = esrEl1EcDabtCel := by decide
  obtain ⟨c2, e2, -⟩ := abort_agree exampleProgram (h1.ready exampleStep_ready) hbody habort
  have hex1 : (clobbering.kernel exampleProgram).exec (exampleStep kernelCore) (.irq ⟨2, 0⟩) =
      .ok ((), c1) := by
    simp only [Env.kernel, e1, ok_bind, pure_eq_ok]
  have hex2 : (clobbering.kernel exampleProgram).exec c1 (.abort 0x96000000) = .ok ((), c2) := by
    simp only [Env.kernel, e2, ok_bind, pure_eq_ok]
  have r : (clobbering.kernel exampleProgram).Run kernelCore
      [.code exampleStep, .irq ⟨2, 0⟩, .abort 0x96000000] [(), (), ()] c2 :=
    .cons ⟨exampleStep_steps, exampleStep_ready⟩ rfl (.cons trivial hex1 (.cons habort hex2 .nil))
  obtain ⟨ha, hstop⟩ := interrupts_transparent exampleProgram hirq hbody r kernelCore_ready
  refine ⟨c2, r, ha, fun x hx => ?_⟩
  obtain ⟨_, -, hid, -⟩ := (hstop (.irq ⟨0x100, 0x2000000⟩) trivial).1 ⟨x, hx⟩
  have htp : c2.cpu.sys .tpidrEl1 = 0xA0000 := (congrArg Regs.tpidr ha.1).symm
  rw [smpGetCpuId, htp] at hid
  exact hid rfl

end KingdoKernel.Exception
