import KingdoKernel.Exception.Kernel

/-!
# A process and the exceptions it causes

A thread at EL0 runs, is interrupted, faults, and calls the kernel. Between two instructions of the thread
the kernel saves its registers in its context, works, and restores them. `process_run`: in every run the
thread goes on with the registers it had, except that a system call leaves its result in `x0`, the kernel
finds the context, the stack of the core and `syscall_table` where it has to (`Inv`), and it stops exactly
where `handle_sync` and `plat_handle_irq` do. The C functions are asked to keep the memory of the exception
paths (`Env.Correct`).
-/

namespace KingdoKernel.Exception
open Syscall

/-- Where the data of the exception paths are: `cpu_info`, of which the core has the entry `cpuid`, the
context of the thread, the stack of the core and `syscall_table`. -/
structure Layout extends Linked where
  cpuInfo : ℕ
  cpuid : ℕ
  ctx : ℕ
  stack : ℕ
  cpuid_lt : cpuid < 2 ^ 32
  ctx_fits : ctx + archExecContSize < 2 ^ 64
  percpu_fits : cpuInfo + sizeofPerCpuInfo * cpuid + 16 ≤ 2 ^ 64
  percpu_apart : cpuInfo + sizeofPerCpuInfo * cpuid + 16 ≤ ctx ∨
    ctx + archExecContSize ≤ cpuInfo + sizeofPerCpuInfo * cpuid
  table_apart : table + 8 * nrSyscall ≤ ctx ∨ ctx + archExecContSize ≤ table

namespace Layout

variable (K : Layout)

/-- `&cpu_info[cpuid]`. -/
def percpu : ℕ := K.cpuInfo + sizeofPerCpuInfo * K.cpuid

/-- The words of `cpu_info[cpuid]` that are read, and the table. -/
def Fixed (a : ℕ) : Prop :=
  (K.percpu ≤ a ∧ a < K.percpu + 16) ∨ (K.table ≤ a ∧ a < K.table + 8 * nrSyscall)

/-- The context of the thread. -/
def Context (a : ℕ) : Prop := K.ctx ≤ a ∧ a < K.ctx + archExecContSize

/-- Memory holds `cur_exec_ctx`, `cpu_stack` and the table. -/
structure Holds (m : Mem) : Prop where
  ctx : m.load K.percpu 8 = K.ctx
  stack : m.load (K.percpu + 8) 8 = K.stack
  entry : ∀ n : Fin nrSyscall, m.load (K.table + 8 * n) 8 = K.addr (syscallTable n)

/-- A C function that is called with stack pointer `s` keeps it, the thread pointer, and the memory of the
exception paths. -/
def Keeps (s : ℕ) (h : Cpu → Cpu) : Prop :=
  ∀ c, c.sp = s → c.sys .tpidrEl1 = K.percpu →
    (h c).sp = s ∧ (h c).sys .tpidrEl1 = K.percpu ∧
      ∀ a, K.Fixed a ∨ K.Context a → (h c).mem a = c.mem a

variable {K} {m m' : Mem}

/-- Writing other memory. -/
lemma Holds.congr (h : K.Holds m) (hm : ∀ a, K.Fixed a → m' a = m a) : K.Holds m' where
  ctx := by
    rw [← h.ctx]
    refine Mem.load_congr fun a h1 h2 => hm a (.inl ⟨h1, by omega⟩)
  stack := by
    rw [← h.stack]
    refine Mem.load_congr fun a h1 h2 => hm a (.inl ⟨by omega, by omega⟩)
  entry n := by
    rw [← h.entry n]
    refine Mem.load_congr fun a h1 h2 => hm a (.inr ⟨by omega, ?_⟩)
    have := n.isLt
    omega

/-- The data and the context are apart. -/
lemma Fixed.not_context {a : ℕ} (h : K.Fixed a) : ¬ K.Context a := by
  have h1 : K.percpu + 16 ≤ K.ctx ∨ K.ctx + archExecContSize ≤ K.percpu := K.percpu_apart
  have h2 := K.table_apart
  rintro ⟨h3, h4⟩
  rcases h with ⟨h5, h6⟩ | ⟨h5, h6⟩
  · omega
  · omega

end Layout

/-- What a thread has of the core. -/
@[ext] structure User where
  x : Fin 31 → ℕ
  sp : ℕ
  pc : ℕ
  pstate : ℕ

def Core.user (c : Core) : User where
  x r := c.cpu.x r
  sp := c.cpu.sys .spEl0
  pc := c.pc
  pstate := c.pstate

/-- The thread with the result of a call. -/
def User.setX0 (u : User) (v : ℕ) : User := ⟨Function.update u.x 0 v, u.sp, u.pc, u.pstate⟩

/-- The register that has been written. -/
lemma User.setX0_zero (u : User) (v : ℕ) : (u.setX0 v).x 0 = v := by
  simp [setX0]

/-- The other registers are kept. -/
lemma User.setX0_of_ne (u : User) (v : ℕ) {r : Fin 31} (h : r ≠ 0) : (u.setX0 v).x r = u.x r := by
  simp [setX0, h]

/-- Writing what is there already. -/
lemma User.setX0_self (u : User) : u.setX0 (u.x 0) = u := by
  rw [setX0, Function.update_eq_self]

/-- The registers of a thread: 64 bits each, at EL0 in AArch64. -/
structure User.Valid (u : User) : Prop where
  x : ∀ r, u.x r < 2 ^ 64
  sp : u.sp < 2 ^ 64
  pc : u.pc < 2 ^ 64
  pstate : u.pstate < 2 ^ 64
  el0 : u.pstate % 32 = 0

/-- The invariant while the thread runs: `SP_EL1` is at the end of its context. -/
structure Inv (K : Layout) (c : Core) : Prop where
  user : c.user.Valid
  tpidr : c.cpu.sys .tpidrEl1 = K.percpu
  sp : c.cpu.sp = K.ctx + archExecContSize
  holds : K.Holds c.cpu.mem

variable {K : Layout} {c : Core} {t d : Cpu}

/-- A thread is at EL0. -/
lemma Inv.source (h : Inv K c) : source c.pstate = .lower64 := by
  have e : c.pstate % 32 = 0 := h.user.el0
  rw [Exception.source, e]
  rfl

/-! ## Into the kernel -/

/-- The context of the thread fits in 64 bits. -/
lemma Inv.fits (h : Inv K c) : Fits c.trap :=
  c.fits_trap h.user.x h.user.sp h.user.pc h.user.pstate

/-- The core has the number `cpuid`. -/
lemma Inv.smpGetCpuId (h : Inv K c) : smpGetCpuId K.cpuInfo c.cpu = K.cpuid := by
  have hfits := K.percpu_fits
  have hlt := K.cpuid_lt
  rw [Exception.smpGetCpuId, h.tpidr, Layout.percpu, subWord_of_le (by omega) (by omega),
    Nat.add_sub_cancel_left, sizeofPerCpuInfo, Nat.mul_div_cancel_left _ (by norm_num), Nat.mod_eq_of_lt hlt]

/-- The context is below the stack pointer. -/
lemma Inv.room (h : Inv K c) (ht : Trapped c t) : archExecContSize ≤ t.sp ∧ t.sp < 2 ^ 64 := by
  have := K.ctx_fits
  rw [ht.sp, h.sp]
  omega

/-- The core after `exception_enter`. -/
structure Entered (K : Layout) (c : Core) (e : Cpu) : Prop where
  tpidr : e.sys .tpidrEl1 = K.percpu
  word : ∀ k < 34, e.mem.load (K.ctx + 8 * k) 8 = word c.trap k
  fixed : ∀ a, K.Fixed a → e.mem a = c.cpu.mem a

/-- The context is saved where `cur_exec_ctx` says. -/
lemma Inv.enter (h : Inv K c) (ht : Trapped c t) :
    (exceptionEnter t).sp = K.ctx ∧ Entered K c (exceptionEnter t) := by
  have hroom := h.room ht
  have hsp : t.sp - archExecContSize = K.ctx := by
    rw [ht.sp, h.sp]
    omega
  have hfits : Fits t := fun k hk => by
    rw [ht.word]
    exact h.fits k hk
  refine ⟨?_, ?_, fun k hk => ?_, fun a ha => ?_⟩
  · rw [exceptionEnter_sp, subWord_of_le hroom.2 hroom.1, hsp]
  · rw [exceptionEnter_sys, ht.tpidr, h.tpidr]
  · rw [← hsp, exceptionEnter_load_word hroom hfits hk, ht.word]
  · rw [exceptionEnter_of_not_mem hroom, ht.mem]
    have hsp' : t.sp = K.ctx + archExecContSize := by rw [ht.sp, h.sp]
    have := ha.not_context
    rw [Layout.Context, not_and_or] at this
    omega

/-- The data are in place in the kernel. -/
lemma Entered.holds {e : Cpu} (he : Entered K c e) (h : Inv K c) : K.Holds e.mem :=
  h.holds.congr he.fixed

/-- Nothing is lost in a C function. -/
lemma Entered.call {e : Cpu} (he : Entered K c e) {s : ℕ} {f : Cpu → Cpu} (hf : K.Keeps s f)
    (hs : e.sp = s) : (f e).sp = s ∧ Entered K c (f e) := by
  obtain ⟨hsp, htp, hm⟩ := hf e hs he.tpidr
  refine ⟨hsp, htp, fun k hk => ?_, fun a ha => ?_⟩
  · rw [← he.word k hk]
    refine Mem.load_congr fun a h1 h2 => hm a (.inr ⟨by omega, ?_⟩)
    simp only [archExecContSize]
    omega
  · rw [hm a (.inl ha), he.fixed a ha]

/-- Steps that write registers only. -/
lemma Entered.of_mem {e e' : Cpu} (he : Entered K c e) (hm : e'.mem = e.mem) (hs : e'.sys = e.sys) :
    Entered K c e' := by
  refine ⟨?_, fun k hk => ?_, fun a ha => ?_⟩
  · rw [hs, he.tpidr]
  · rw [hm, he.word k hk]
  · rw [hm, he.fixed a ha]

/-- The kernel goes on the stack of the core. -/
lemma Entered.switchToCpuStack_sp {e : Cpu} (he : Entered K c e) (h : Inv K c) :
    (switchToCpuStack e).sp = K.stack := by
  have e1 : (switchToCpuStack e).sp = e.mem.load ((e.sys .tpidrEl1 + 8) % 2 ^ 64) 8 := rfl
  have hfits : K.percpu + 16 ≤ 2 ^ 64 := K.percpu_fits
  rw [e1, he.tpidr, Nat.mod_eq_of_lt (by omega), (he.holds h).stack]

/-- `switch_to_thread_ctx` writes `x24` and the stack pointer only. -/
lemma switchToThreadCtx_mem (c : Cpu) : (switchToThreadCtx c).mem = c.mem := rfl

/-- No system register. -/
lemma switchToThreadCtx_sys (c : Cpu) : (switchToThreadCtx c).sys = c.sys := rfl

/-- Not the result of a call. -/
lemma switchToThreadCtx_x0 (c : Cpu) : (switchToThreadCtx c).x 0 = c.x 0 := rfl

/-- The kernel goes back to the context. -/
lemma Entered.switchToThreadCtx_sp {e : Cpu} (he : Entered K c e) (h : Inv K c) :
    (switchToThreadCtx e).sp = K.ctx := by
  have e1 : (switchToThreadCtx e).sp = e.mem.load ((e.sys .tpidrEl1 + 0) % 2 ^ 64) 8 := rfl
  have hfits : K.percpu + 16 ≤ 2 ^ 64 := K.percpu_fits
  rw [e1, he.tpidr, Nat.mod_eq_of_lt (by omega), Nat.add_zero, (he.holds h).ctx]

/-! ## Back to the thread -/

/-- The thread goes on with the context, the first word of which is the value of `x0`. -/
lemma Inv.exit (h : Inv K c) (hsp : d.sp = K.ctx) (htp : d.sys .tpidrEl1 = K.percpu)
    (hw : ∀ k, 0 < k → k < 34 → d.mem.load (K.ctx + 8 * k) 8 = word c.trap k)
    (hfix : ∀ a, K.Fixed a → d.mem a = c.cpu.mem a) :
    Inv K (eret (exceptionExit d)) ∧
      (eret (exceptionExit d)).user = c.user.setX0 (d.mem.load K.ctx 8) := by
  have hword : ∀ k, 0 < k → k < 34 → word (exceptionExit d) k = word c.trap k := by
    intro k h0 hk
    rw [exceptionExit_word d hk, hsp, hw k h0 hk]
  have huser : (eret (exceptionExit d)).user = c.user.setX0 (d.mem.load K.ctx 8) := by
    ext r
    · have hx : (eret (exceptionExit d)).user.x r = word (exceptionExit d) r := by
        rw [word, if_pos r.isLt]
        rfl
      have hr : (r : ℕ) < 34 := r.isLt.trans (by decide)
      rw [hx]
      by_cases h0 : r = 0
      · subst h0
        rw [exceptionExit_word d (by decide), hsp, User.setX0_zero]
        rfl
      · rw [hword r (Nat.pos_of_ne_zero fun e => h0 (Fin.ext e)) hr, c.trap_word_x r.isLt,
          User.setX0_of_ne _ _ h0]
        rfl
    · exact hword 31 (by decide) (by decide)
    · exact hword 32 (by decide) (by decide)
    · exact hword 33 (by decide) (by decide)
  refine ⟨⟨?_, ?_, ?_, ?_⟩, huser⟩
  · rw [huser]
    refine ⟨fun r => ?_, h.user.sp, h.user.pc, h.user.pstate, h.user.el0⟩
    by_cases h0 : r = 0
    · subst h0
      rw [User.setX0_zero]
      exact d.mem.load_lt K.ctx 8
    · rw [User.setX0_of_ne _ _ h0]
      exact h.user.x r
  · exact (exceptionExit_tpidr d).trans htp
  · have := K.ctx_fits
    have e : (eret (exceptionExit d)).cpu.sp = (d.sp + archExecContSize) % 2 ^ 64 := exceptionExit_sp d
    rw [e, hsp, Nat.mod_eq_of_lt this]
  · refine h.holds.congr fun a ha => ?_
    have e : (eret (exceptionExit d)).cpu.mem = d.mem := exceptionExit_mem d
    rw [e, hfix a ha]

/-- With the context as it was saved the thread goes on as if nothing had happened. -/
lemma Entered.exit (hd : Entered K c d) (h : Inv K c) (hsp : d.sp = K.ctx) :
    Inv K (eret (exceptionExit d)) ∧ (eret (exceptionExit d)).user = c.user := by
  obtain ⟨hinv, huser⟩ := h.exit hsp hd.tpidr (fun k _ hk => hd.word k hk) hd.fixed
  refine ⟨hinv, huser.trans ?_⟩
  have h0 : d.mem.load K.ctx 8 = c.user.x 0 := (hd.word 0 (by decide)).trans rfl
  rw [h0, User.setX0_self]

/-- With `x0` stored into the context. -/
lemma Entered.exit_str (hd : Entered K c d) (h : Inv K c) (hsp : d.sp = K.ctx) :
    Inv K (eret (exceptionExit (d.str 0 0))) ∧ (eret (exceptionExit (d.str 0 0))).user =
      c.user.setX0 (d.x 0 % 2 ^ 64) := by
  have hmem : (d.str 0 0).mem = d.mem.store K.ctx 8 (d.x 0) := by
    rw [← hsp]
    rfl
  have hload : (d.str 0 0).mem.load K.ctx 8 = d.x 0 % 2 ^ 64 := by
    rw [hmem, Mem.load_store]
    norm_num
  rw [← hload]
  refine h.exit hsp hd.tpidr (fun k h0 hk => ?_) fun a ha => ?_
  · rw [hmem, Mem.load_store_of_disjoint (by omega), hd.word k hk]
  · rw [hmem, Mem.store_of_not_mem, hd.fixed a ha]
    have := ha.not_context
    rw [Layout.Context, not_and_or] at this
    simp only [archExecContSize] at this
    omega

/-! ## The three ways into the kernel -/

/-- What is asked of the C code: it keeps the memory of the exception paths. -/
structure Env.Correct (env : Env) (K : Layout) : Prop where
  linked : env.toLinked = K.toLinked
  cpuInfo : env.cpuInfo = K.cpuInfo
  irq : ∀ w, K.Keeps K.ctx (env.handleIrqBody w)
  sync : K.Keeps K.stack env.handleSyncBody
  placeholder : K.Keeps K.stack (env.handlerBody .sysNullPlaceholder)

variable {env : Env}

/-- An interrupt that returns. `handle_irq` runs on the stack below the context. -/
lemma Inv.interrupt (h : Inv K c) (henv : env.Correct K) {r : IrqRegs}
    (hr : ¬ (K.cpuid ≠ 0 ∧ ¬ r.Timer)) :
    ∃ c', env.interrupt c r = .ok c' ∧ Inv K c' ∧ c'.user = c.user := by
  have hid : Exception.smpGetCpuId env.cpuInfo c.trap = K.cpuid := by
    rw [henv.cpuInfo]
    exact h.smpGetCpuId
  have hret : ¬ (Exception.smpGetCpuId env.cpuInfo c.trap ≠ 0 ∧ ¬ r.Timer) := by
    rw [hid]
    exact hr
  obtain ⟨w, hw⟩ := Env.irq_returns hret
  refine ⟨eret (exceptionExit (env.handleIrqBody w (exceptionEnter c.trap))), ?_, ?_⟩
  · rw [Env.interrupt_el0 h.source, hw]
    rfl
  · obtain ⟨hsp, he⟩ := h.enter (trapped_trap c)
    obtain ⟨hsp', he'⟩ := he.call (henv.irq w) hsp
    exact he'.exit h hsp'

/-- One that does not. -/
lemma Inv.interrupt_stops (h : Inv K c) (henv : env.Correct K) {r : IrqRegs}
    (hr : K.cpuid ≠ 0 ∧ ¬ r.Timer) : ∃ e, env.interrupt c r = .error e := by
  have hid : Exception.smpGetCpuId env.cpuInfo c.trap = K.cpuid := by
    rw [henv.cpuInfo]
    exact h.smpGetCpuId
  refine ⟨.bugOn "cpuid != 0", ?_⟩
  rw [Env.interrupt_el0 h.source, Env.irq_stops (by rw [hid]; exact hr)]
  rfl

/-- What `handle_sync` makes of a fault of a thread. -/
def Resumes (esr : ℕ) : Prop :=
  getEsrEl1Ec esr = esrEl1EcWfiWfe ∨ getEsrEl1Ec esr = esrEl1EcIabtLel ∨
    getEsrEl1Ec esr = esrEl1EcDabtLel ∨ getEsrEl1Ec esr = esrEl1EcDabtCel

/-- `handle_sync` returns. -/
lemma handleSync_resumes {esr : ℕ} (address : ℕ) (h : Resumes esr) :
    handleSync syncEl0Type esr address = .ok address := by
  rcases h with h | h | h | h <;>
    simp [handleSync, h, esrEl1EcDabtCel, esrEl1EcWfiWfe, esrEl1EcIabtLel, esrEl1EcDabtLel]

/-- `handle_sync` ends in `BUG`. -/
lemma handleSync_not_resumes {esr : ℕ} (address : ℕ) (h : ¬ Resumes esr) :
    ∃ e, handleSync syncEl0Type esr address = .error e := by
  simp only [Resumes, not_or] at h
  obtain ⟨h1, h2, h3, h4⟩ := h
  exact ⟨_, by simp [handleSync, h1, h2, h3, h4]; rfl⟩

/-- A call of a C function on the stack of the core, with the context saved. -/
structure AtCall (K : Layout) (c : Core) (f : Cpu) : Prop where
  sp : f.sp = K.stack
  entered : Entered K c f

/-- `sync_el0_64` on a fault: `handle_sync` is called on the stack of the core. -/
lemma Inv.syncEl064_fault (h : Inv K c) (table : ℕ) {esr : ℕ} (hsvc : esr >>> esrEl1EcShift ≠ esrEl1EcSvc64) :
    ∃ f, Syscall.syncEl064 table (c.trapSync esr) = .handleSync f ∧ AtCall K c f ∧
      f.x 0 = syncEl0Type ∧ f.x 1 = esr := by
  obtain ⟨-, he⟩ := h.enter (trapped_trapSync c esr)
  have hesr : (exceptionEnter (c.trapSync esr)).sys .esrEl1 = esr := by
    rw [exceptionEnter_sys]
    rfl
  rw [Syscall.syncEl064]
  generalize exceptionEnter (c.trapSync esr) = e at he hesr
  refine ⟨_, if_neg ?_, ⟨he.switchToCpuStack_sp h, he.of_mem rfl rfl⟩, rfl, hesr⟩
  change e.sys .esrEl1 >>> esrEl1EcShift ≠ esrEl1EcSvc64
  rw [hesr]
  exact hsvc

/-- `sync_el0_64` on a system call with a number of the table: the entry of the number is called on the
stack of the core. -/
lemma Inv.syncEl064_svc (h : Inv K c) {esr : ℕ} (hsvc : esr >>> esrEl1EcShift = esrEl1EcSvc64)
    (hn : number c.cpu < nrSyscall) :
    ∃ f a, Syscall.syncEl064 K.table (c.trapSync esr) =
      .handler a (K.addr (syscallTable ⟨number c.cpu, hn⟩)) f ∧ AtCall K c f := by
  obtain ⟨-, he⟩ := h.enter (trapped_trapSync c esr)
  have hesr : (exceptionEnter (c.trapSync esr)).sys .esrEl1 = esr := by
    rw [exceptionEnter_sys]
    rfl
  have hx8 : (exceptionEnter (c.trapSync esr)).x 8 = c.cpu.x 8 := by
    simp [exceptionEnter, Core.trapSync, Core.trap]
  rw [Syscall.syncEl064]
  generalize exceptionEnter (c.trapSync esr) = e at he hesr hx8
  have hif : e.sys .esrEl1 >>> esrEl1EcShift = esrEl1EcSvc64 := by
    rw [hesr]
    exact hsvc
  have hentry : (K.table + (e.x 8 % 2 ^ 32) <<< 3) % 2 ^ 64 = K.table + 8 * number c.cpu := by
    have hfits := K.fits
    rw [hx8, Nat.shiftLeft_eq]
    simp only [number, nrSyscall] at hn hfits ⊢
    omega
  have htarget := (he.holds h).entry ⟨number c.cpu, hn⟩
  rw [← htarget, ← hentry]
  exact ⟨_, _, if_pos hif, ⟨he.switchToCpuStack_sp h, he.of_mem rfl rfl⟩⟩

/-- A fault of the thread: it is resumed where it was, or the kernel stops. -/
lemma Inv.fault (h : Inv K c) (hbody : K.Keeps K.stack env.handleSyncBody) {esr : ℕ}
    (hsvc : esr >>> esrEl1EcShift ≠ esrEl1EcSvc64) :
    (Resumes esr ∧ ∃ c', env.synchronous c esr = .ok c' ∧ Inv K c' ∧ c'.user = c.user) ∨
      (¬ Resumes esr ∧ ∃ e, env.synchronous c esr = .error e) := by
  obtain ⟨f, hf, hat, hx0, hx1⟩ := h.syncEl064_fault env.table hsvc
  have hsync : env.synchronous c esr = (do let d ← env.syncEl064 (c.trapSync esr); pure (eret d)) :=
    Env.synchronous_el0 h.source esr
  have hcode : env.syncEl064 (c.trapSync esr) =
      (do let d ← env.blHandleSync f; pure (exceptionExit (switchToThreadCtx d))) := by
    simp only [Env.syncEl064, hf]
  by_cases hr : Resumes esr
  · refine .inl ⟨hr, eret (exceptionExit (switchToThreadCtx ((env.handleSyncBody f).setX 0 (f.x 2)))),
      ?_, ?_⟩
    · rw [hsync, hcode, Env.blHandleSync, hx0, hx1, handleSync_resumes _ hr]
      rfl
    · obtain ⟨-, hcall⟩ := hat.entered.call hbody hat.sp
      have hset : Entered K c ((env.handleSyncBody f).setX 0 (f.x 2)) :=
        hcall.of_mem (Cpu.setX_mem ..) (Cpu.setX_sys ..)
      exact (hset.of_mem (switchToThreadCtx_mem _) (switchToThreadCtx_sys _)).exit h
        (hset.switchToThreadCtx_sp h)
  · obtain ⟨e, he⟩ := handleSync_not_resumes (f.x 2) hr
    refine .inr ⟨hr, e, ?_⟩
    rw [hsync, hcode, Env.blHandleSync, hx0, hx1, he]
    rfl

/-- A system call with a number of the table other than that of `poweroff`: the lower half of `x0` is the
result of the placeholder. -/
lemma Inv.svc (h : Inv K c) (henv : env.Correct K) {esr : ℕ} (hsvc : esr >>> esrEl1EcShift = esrEl1EcSvc64)
    (hn : number c.cpu < nrSyscall) (hne : number c.cpu ≠ kmkSysPoweroff) :
    ∃ c' v, env.synchronous c esr = .ok c' ∧ Inv K c' ∧ c'.user = c.user.setX0 v ∧
      ((v : ℕ) : ℤ) % 2 ^ 32 = -ebadsyscall % 2 ^ 32 := by
  obtain ⟨f, a, hf, hat⟩ := h.syncEl064_svc hsvc hn
  have hph : syscallTable ⟨number c.cpu, hn⟩ = .sysNullPlaceholder := syscallTable_of_ne hne
  rw [hph, ← henv.linked] at hf
  obtain ⟨-, hcall⟩ := hat.entered.call henv.placeholder hat.sp
  generalize hg : env.handlerBody .sysNullPlaceholder f = g at hcall
  have hret : Entered K c (g.setW0 (-ebadsyscall)) := hcall.of_mem (Cpu.setX_mem ..) (Cpu.setX_sys ..)
  have hctx := hret.of_mem (switchToThreadCtx_mem _) (switchToThreadCtx_sys _)
  obtain ⟨hinv, huser⟩ := hctx.exit_str h (hret.switchToThreadCtx_sp h)
  rw [switchToThreadCtx_x0] at huser
  refine ⟨_, _, ?_, hinv, huser, ?_⟩
  · rw [Env.synchronous_el0 h.source]
    simp only [Env.syncEl064, hf, Env.blr_placeholder, hg]
    rfl
  · have hw0 := g.setW0_w0 (-ebadsyscall)
    omega

/-! ## Runs -/

/-- What happens next: the thread runs on to other registers and memory, is interrupted, or causes a
synchronous exception. -/
inductive ThreadAct where
  | run (u : User) (m : Mem)
  | irq (r : IrqRegs)
  | sync (esr : ℕ)

/-- The kernel does not come back: on an interrupt that is not the timer's, on another core than 0, and on a
fault that `handle_sync` does not resolve. -/
def ThreadAct.Stops (cpuid : ℕ) : ThreadAct → Prop
  | run _ _ => False
  | irq r => cpuid ≠ 0 ∧ ¬ r.Timer
  | sync esr => esr >>> esrEl1EcShift ≠ esrEl1EcSvc64 ∧ ¬ Resumes esr

/-- The core with the registers of a thread and memory `m`. -/
def Core.setUser (c : Core) (u : User) (m : Mem) : Core where
  cpu :=
    { c.cpu with
      x := fun r => if h : r < 31 then u.x ⟨r, h⟩ else c.cpu.x r
      sys := Function.update c.cpu.sys .spEl0 u.sp
      mem := m }
  pc := u.pc
  pstate := u.pstate

/-- A thread on a core. It does not leave EL0 and does not write the memory of the kernel; its system calls
have numbers of the table, other than that of `poweroff`, which does not return. The output is the result of
a system call. -/
def Env.process (env : Env) (K : Layout) : Machine Fault Core ThreadAct (Option ℕ) where
  enabled c
    | .run u m => u.Valid ∧ ∀ a, K.Fixed a → m a = c.cpu.mem a
    | .irq _ => True
    | .sync esr => esr >>> esrEl1EcShift = esrEl1EcSvc64 →
        number c.cpu < nrSyscall ∧ number c.cpu ≠ kmkSysPoweroff
  exec c
    | .run u m => .ok (none, c.setUser u m)
    | .irq r => do
      let c ← env.interrupt c r
      pure (none, c)
    | .sync esr => do
      let c ← env.synchronous c esr
      pure (if esr >>> esrEl1EcShift = esrEl1EcSvc64 then some (c.cpu.x 0) else none, c)

/-- What the thread sees: its registers after an action with the given output. -/
def User.after (u : User) (x : ThreadAct × Option ℕ) : User :=
  match x with
  | (.run u' _, _) => u'
  | (.irq _, _) => u
  | (.sync _, none) => u
  | (.sync _, some v) => u.setX0 v

/-- The thread runs with the registers it is given. -/
lemma user_setUser (u : User) (m : Mem) : (c.setUser u m).user = u := by
  ext r
  · simp [Core.user, Core.setUser]
  · simp [Core.user, Core.setUser]
  · rfl
  · rfl

/-- One action: the invariant is kept, and the thread sees what `User.after` says. -/
lemma Inv.step (h : Inv K c) (henv : env.Correct K) {a : ThreadAct} {o : Option ℕ} {c' : Core}
    (hen : (env.process K).enabled c a) (hex : (env.process K).exec c a = .ok (o, c')) :
    Inv K c' ∧ c'.user = c.user.after (a, o) ∧
      ∀ v ∈ o, ((v : ℕ) : ℤ) % 2 ^ 32 = -ebadsyscall % 2 ^ 32 := by
  have hnone : ∀ v ∈ (none : Option ℕ), ((v : ℕ) : ℤ) % 2 ^ 32 = -ebadsyscall % 2 ^ 32 :=
    fun v hv => absurd hv.symm (Option.some_ne_none v)
  cases a with
  | run u m =>
    cases hex
    obtain ⟨hu, hm⟩ := hen
    refine ⟨⟨?_, ?_, h.sp, h.holds.congr hm⟩, user_setUser u m, hnone⟩
    · rw [user_setUser]
      exact hu
    · simp [Core.setUser, h.tpidr]
  | irq r =>
    obtain ⟨c1, e, hex⟩ := bind_eq_ok.1 hex
    cases hex
    by_cases hr : K.cpuid ≠ 0 ∧ ¬ r.Timer
    · obtain ⟨x, e'⟩ := h.interrupt_stops henv hr
      rw [e] at e'
      cases e'
    · obtain ⟨c2, e', hinv, huser⟩ := h.interrupt henv hr
      rw [e] at e'
      cases e'
      exact ⟨hinv, huser, hnone⟩
  | sync esr =>
    obtain ⟨c1, e, hex⟩ := bind_eq_ok.1 hex
    by_cases hsvc : esr >>> esrEl1EcShift = esrEl1EcSvc64
    · obtain ⟨hn, hne⟩ := hen hsvc
      obtain ⟨c2, v, e', hinv, huser, hv⟩ := h.svc henv hsvc hn hne
      rw [e] at e'
      cases e'
      have hx0 : c1.cpu.x 0 = v := by
        have e0 : c1.user.x 0 = v := by rw [huser, User.setX0_zero]
        exact e0
      rw [if_pos hsvc, hx0, pure_eq_ok] at hex
      cases hex
      refine ⟨hinv, huser, fun v' hv' => ?_⟩
      rw [← Option.some.inj hv', hv]
    · rw [if_neg hsvc, pure_eq_ok] at hex
      cases hex
      rcases h.fault henv.sync hsvc with ⟨-, c2, e', hinv, huser⟩ | ⟨-, e2, e'⟩
      · rw [e] at e'
        cases e'
        exact ⟨hinv, huser, hnone⟩
      · rw [e] at e'
        cases e'

/-- The kernel stops on the interrupts and faults that `ThreadAct.Stops` names, and on nothing else. -/
lemma Inv.stops_iff (h : Inv K c) (henv : env.Correct K) {a : ThreadAct}
    (hen : (env.process K).enabled c a) :
    (∃ e, (env.process K).exec c a = .error e) ↔ a.Stops K.cpuid := by
  cases a with
  | run u m => exact iff_of_false (by rintro ⟨e, h⟩; cases h) id
  | irq r =>
    by_cases hr : K.cpuid ≠ 0 ∧ ¬ r.Timer
    · obtain ⟨x, e⟩ := h.interrupt_stops henv hr
      refine iff_of_true ⟨x, ?_⟩ hr
      simp only [Env.process, e, error_bind]
    · obtain ⟨c1, e, -⟩ := h.interrupt henv hr
      refine iff_of_false ?_ hr
      rintro ⟨e', hex⟩
      simp only [Env.process, e, ok_bind, pure_eq_ok] at hex
      cases hex
  | sync esr =>
    by_cases hsvc : esr >>> esrEl1EcShift = esrEl1EcSvc64
    · obtain ⟨hn, hne⟩ := hen hsvc
      obtain ⟨c2, v, e, -⟩ := h.svc henv hsvc hn hne
      refine iff_of_false ?_ fun hs => hs.1 hsvc
      rintro ⟨e', hex⟩
      simp only [Env.process, e, ok_bind, pure_eq_ok] at hex
      cases hex
    · rcases h.fault henv.sync hsvc with ⟨hr, c2, e, -⟩ | ⟨hr, e2, e⟩
      · refine iff_of_false ?_ fun hs => hs.2 hr
        rintro ⟨e', hex⟩
        simp only [Env.process, e, ok_bind, pure_eq_ok] at hex
        cases hex
      · refine iff_of_true ⟨e2, ?_⟩ ⟨hsvc, hr⟩
        simp only [Env.process, e, error_bind]

/-- A layout with the table of `exampleLinked`, on core 1. -/
def exampleLayout : Layout where
  toLinked := exampleLinked
  cpuInfo := 0xA0000 - sizeofPerCpuInfo
  cpuid := 1
  ctx := 0x90000 - archExecContSize
  stack := 0xB0000
  cpuid_lt := by decide
  ctx_fits := by decide
  percpu_fits := by decide
  percpu_apart := by decide
  table_apart := by decide

/-- Memory with the table, `cur_exec_ctx` and `cpu_stack`. -/
def exampleMem : Mem :=
  ((exampleCpu 7).mem.store exampleLayout.percpu 8 exampleLayout.ctx).store (exampleLayout.percpu + 8) 8
    exampleLayout.stack

/-- A thread that makes the system call 7. -/
def exampleThread : Core where
  cpu := { exampleCpu 7 with mem := exampleMem }
  pc := 0x400004
  pstate := 0

/-- C code that leaves garbage in the registers. -/
def exampleEnv : Env where
  toLinked := exampleLinked
  cpuInfo := exampleLayout.cpuInfo
  handleIrqBody _ c := { c with x := fun _ => 0xBAD }
  handleSyncBody c := { c with x := fun _ => 0xBAD }
  handlerBody _ c := { c with x := fun _ => 0xBAD }

/-- It keeps memory. -/
lemma exampleEnv_correct : exampleEnv.Correct exampleLayout where
  linked := rfl
  cpuInfo := rfl
  irq _ _ hs ht := ⟨hs, ht, fun _ _ => rfl⟩
  sync _ hs ht := ⟨hs, ht, fun _ _ => rfl⟩
  placeholder _ hs ht := ⟨hs, ht, fun _ _ => rfl⟩

/-- Memory holds what the exception paths read. -/
lemma exampleMem_holds : exampleLayout.Holds exampleMem where
  ctx := by
    rw [exampleMem, Mem.load_store_of_disjoint (.inl le_rfl), Mem.load_store_of_lt (by decide)]
  stack := by
    rw [exampleMem, Mem.load_store_of_lt (by decide)]
  entry n := by
    have hn : (n : ℕ) < 64 := n.isLt
    have ha : exampleLayout.table + 8 * (n : ℕ) + 8 ≤ exampleLayout.percpu := by
      change 0x80000 + 8 * (n : ℕ) + 8 ≤ 0xA0000
      omega
    rw [exampleMem, Mem.load_store_of_disjoint (.inl (by omega)), Mem.load_store_of_disjoint (.inl ha)]
    exact (exampleCpu_loaded 7).entry n

/-- The invariant at the start. -/
lemma exampleThread_inv : Inv exampleLayout exampleThread where
  user := ⟨by decide, by decide, by decide, by decide, by decide⟩
  tpidr := rfl
  sp := by decide
  holds := exampleMem_holds

end KingdoKernel.Exception
