import KingdoKernel.Buddy.Basic
import KingdoKernel.Lib.Machine

/-!
# The timer

Model of `irq/timer.c` and `arch/aarch64/plat/raspi3/irq/timer.c`. The counter `cntpct_el0` and the
frequency `cntfrq_el0` are read where the source reads them and are arguments here; arithmetic on `u64`
is modulo `2 ^ 64`, and a division by zero yields zero as the instruction does. The registers that only
make the hardware raise interrupts (`cntp_tval_el0`, `cntp_ctl_el0`) are not modelled, and neither are
locks.

`timer_init` is called once on every core, but the epoch `cntp_init` that `plat_get_mono_time` subtracts
is one variable for all of them. `mono_time_kept` says which calls keep the time monotonic: those before
which nobody has read a time of at least a nanosecond. The conversion to nanoseconds goes through the
whole number of ticks per microsecond; `mono_time_rounded_iff` says when this loses nothing.
-/

namespace KingdoKernel

/-- The globals of the timer, the sleepers of `time_states`, and the interrupt control registers of the
cores. -/
structure Timer where
  cntpInit : ℕ
  cntpFreq : ℕ
  cntpTval : ℕ
  tickPerUs : ℕ
  sleepLists : ℕ → List ℕ
  irqcntl : ℕ → ℕ

namespace Timer

/-- `PLAT_CPU_NUM`. -/
def platCpuNum : ℕ := 4

/-- `TICK_MS`. -/
def tickMs : ℕ := 10

/-- `NS_IN_US`. -/
def nsInUs : ℕ := 1000

/-- `INT_SRC_TIMER1`. -/
def intSrcTimer1 : ℕ := 2

/-- `plat_timer_init` on the core `cpuid`. -/
def platTimerInit (t : Timer) (cpuid cntpct cntfrq : ℕ) : Timer where
  cntpInit := cntpct
  cntpFreq := cntfrq
  cntpTval := cntfrq * tickMs % 2 ^ 64 / 1000
  tickPerUs := cntfrq / 1000 / 1000
  sleepLists := t.sleepLists
  irqcntl := Function.update t.irqcntl cpuid intSrcTimer1

/-- `timer_init` on the core `cpuid`. -/
def timerInit (t : Timer) (cpuid cntpct cntfrq : ℕ) : Timer :=
  if cpuid = 0 then
    { t with sleepLists := fun i => if i < platCpuNum then [] else t.sleepLists i }.platTimerInit
      cpuid cntpct cntfrq
  else t.platTimerInit cpuid cntpct cntfrq

/-- `plat_get_mono_time`. -/
def platGetMonoTime (t : Timer) (cntpct : ℕ) : ℕ :=
  subWord cntpct t.cntpInit * nsInUs % 2 ^ 64 / t.tickPerUs

/-- `timer_init` sets the epoch to the time of the call. -/
@[simp] lemma cntpInit_timerInit (t : Timer) (cpuid cntpct cntfrq : ℕ) :
    (t.timerInit cpuid cntpct cntfrq).cntpInit = cntpct := by
  rw [timerInit]
  split_ifs <;> rfl

/-- `timer_init` computes the ticks per microsecond. -/
@[simp] lemma tickPerUs_timerInit (t : Timer) (cpuid cntpct cntfrq : ℕ) :
    (t.timerInit cpuid cntpct cntfrq).tickPerUs = cntfrq / 1000 / 1000 := by
  rw [timerInit]
  split_ifs <;> rfl

/-- The time that `d` ticks take, in the unit of `plat_get_mono_time`. -/
def elapsedNs (freq d : ℕ) : ℕ := d * 1000 / (freq / 1000 / 1000)

/-- `plat_get_mono_time` is the time since the epoch, as long as nothing wraps around. -/
lemma platGetMonoTime_eq {t : Timer} {freq c : ℕ} (ht : t.tickPerUs = freq / 1000 / 1000)
    (hc : c < 2 ^ 64) (hle : t.cntpInit ≤ c) (hlt : (c - t.cntpInit) * 1000 < 2 ^ 64) :
    t.platGetMonoTime c = elapsedNs freq (c - t.cntpInit) := by
  rw [platGetMonoTime, subWord_of_le hc hle, nsInUs, Nat.mod_eq_of_lt hlt, ht, elapsedNs]

/-- More ticks are more nanoseconds. -/
lemma elapsedNs_mono (freq : ℕ) {d d' : ℕ} (h : d ≤ d') : elapsedNs freq d ≤ elapsedNs freq d' :=
  Nat.div_le_div_right (Nat.mul_le_mul_right 1000 h)

/-! ## Runs -/

/-- The timer, the last value of the counter that was read, whether `timer_init` has been called, and
the largest number of ticks after the epoch at which the time has been read. -/
structure Sys where
  timer : Timer
  counter : ℕ
  started : Bool
  aged : ℕ

/-- Calls, with the core they are made on and the value of the counter they read. -/
inductive Op where
  | timerInit (cpuid cntpct : ℕ)
  | getMonoTime (cntpct : ℕ)
deriving DecidableEq, Repr

/-- The timer driven by the cores, at the frequency `freq`. The counter never decreases. -/
def machine (freq : ℕ) : Machine Fault Sys Op (Option ℕ) where
  enabled s op :=
    match op with
    | .timerInit cpuid c => cpuid < platCpuNum ∧ s.counter ≤ c ∧ c < 2 ^ 64
    | .getMonoTime c => s.started = true ∧ s.counter ≤ c ∧ c < 2 ^ 64 ∧
        (c - s.timer.cntpInit) * 1000 < 2 ^ 64
  exec s op :=
    match op with
    | .timerInit cpuid c => .ok (none, ⟨s.timer.timerInit cpuid c freq, c, true, s.aged⟩)
    | .getMonoTime c => .ok (some (s.timer.platGetMonoTime c),
        ⟨s.timer, c, s.started, max s.aged (c - s.timer.cntpInit)⟩)

/-- No time of a nanosecond or more has been read. -/
def Sys.Young (freq : ℕ) (s : Sys) : Prop := s.aged * 1000 < freq / 1000 / 1000

instance (freq : ℕ) (s : Sys) : Decidable (s.Young freq) := inferInstanceAs (Decidable (_ < _))

/-- The runs in which `timer_init` is called only as long as no time of a nanosecond or more has been
read. -/
def keeping (freq : ℕ) : Machine Fault Sys Op (Option ℕ) :=
  (machine freq).restrict fun s op =>
    match op with
    | .timerInit _ _ => s.Young freq
    | .getMonoTime _ => True

/-- The state before the first call; the globals are zero. -/
def Sys.start : Sys := ⟨⟨0, 0, 0, 0, fun _ => [], fun _ => 0⟩, 0, false, 0⟩

/-- The times that reads have returned do not decrease. -/
def Nondecreasing (os : List (Option ℕ)) : Prop := os.reduceOption.Pairwise (· ≤ ·)

/-- What holds in all runs: the epoch is not in the future. -/
structure Sys.Good (freq : ℕ) (s : Sys) : Prop where
  tick : s.started = true → s.timer.tickPerUs = freq / 1000 / 1000
  epoch : s.started = true → s.timer.cntpInit ≤ s.counter

/-- What holds in runs of `keeping`: reads so far were no later after their epoch than the present is
after its own. -/
structure Sys.Fresh (freq : ℕ) (s : Sys) : Prop extends s.Good freq where
  bound : s.Young freq ∨ (s.started = true ∧ s.timer.cntpInit + s.aged ≤ s.counter)

variable {freq : ℕ} {s s' : Sys} {ops : List Op} {os : List (Option ℕ)}

/-- The state stays good and no call faults. -/
lemma machine_sound (freq : ℕ) : (machine freq).Sound (Sys.Good freq) := by
  intro s op h hen
  cases op with
  | timerInit cpuid c => exact ⟨none, _, rfl, fun _ => tickPerUs_timerInit _ _ _ _, fun _ => by simp⟩
  | getMonoTime c => exact ⟨_, _, rfl, h.tick, fun hs => (h.epoch hs).trans hen.2.1⟩

/-- A read in a run. -/
lemma Sys.Good.mono_time (h : s.Good freq) {c : ℕ} (hen : (machine freq).enabled s (.getMonoTime c)) :
    s.timer.platGetMonoTime c = elapsedNs freq (c - s.timer.cntpInit) := by
  obtain ⟨hst, hle, hlt, hd⟩ := hen
  exact platGetMonoTime_eq (h.tick hst) hlt ((h.epoch hst).trans hle) hd

/-- Nobody has read a time of a nanosecond. -/
lemma Sys.Young.elapsedNs_eq_zero (h : s.Young freq) : elapsedNs freq s.aged = 0 :=
  Nat.div_eq_of_lt h

/-- The reads of a run of `keeping` do not decrease, and none is below what has been read before. -/
lemma keeping_nondecreasing (r : (keeping freq).Run s ops os s') (h : s.Fresh freq) :
    Nondecreasing os ∧ ∀ v ∈ os.reduceOption, elapsedNs freq s.aged ≤ v := by
  induction r with
  | nil => exact ⟨List.Pairwise.nil, by rintro v ⟨⟩⟩
  | @cons s s₁ s' op o ops os hen hex _ ih =>
    obtain ⟨hen, hkeep⟩ := hen
    cases op with
    | timerInit cpuid c =>
      cases hex
      exact ih ⟨⟨fun _ => tickPerUs_timerInit _ _ _ _, fun _ => by simp⟩, .inl hkeep⟩
    | getMonoTime c =>
      have hv := h.toGood.mono_time hen
      obtain ⟨hst, hle, -, -⟩ := hen
      have hep := h.epoch hst
      cases hex
      have hnow : elapsedNs freq s.aged ≤ elapsedNs freq (c - s.timer.cntpInit) := by
        rcases h.bound with hy | ⟨-, hb⟩
        · rw [hy.elapsedNs_eq_zero]
          exact Nat.zero_le _
        · exact elapsedNs_mono freq (by omega)
      have hfresh : Sys.Fresh freq ⟨s.timer, c, s.started, max s.aged (c - s.timer.cntpInit)⟩ := by
        refine ⟨⟨h.tick, fun hs => (h.epoch hs).trans hle⟩, ?_⟩
        rcases le_total s.aged (c - s.timer.cntpInit) with hmax | hmax
        · right
          refine ⟨hst, ?_⟩
          show s.timer.cntpInit + max s.aged (c - s.timer.cntpInit) ≤ c
          omega
        · rcases h.bound with hy | ⟨-, hb⟩
          · left
            rw [Sys.Young]
            simp only [max_eq_left hmax]
            exact hy
          · right
            refine ⟨hst, ?_⟩
            show s.timer.cntpInit + max s.aged (c - s.timer.cntpInit) ≤ c
            omega
      obtain ⟨hmono, hge⟩ := ih hfresh
      have hge' : ∀ v ∈ os.reduceOption, s.timer.platGetMonoTime c ≤ v := by
        intro v hvm
        rw [hv]
        exact (elapsedNs_mono freq (le_max_right _ _)).trans (hge v hvm)
      refine ⟨?_, ?_⟩
      · rw [Nondecreasing, List.reduceOption_cons_of_some]
        exact List.pairwise_cons.2 ⟨hge', hmono⟩
      · rw [List.reduceOption_cons_of_some]
        rintro v (_ | ⟨_, hvm⟩)
        · rw [hv]
          exact hnow
        · exact (hnow.trans hv.ge).trans (hge' v hvm)

/-- The time that the latest read since its epoch has returned is among the outputs. -/
lemma aged_read (r : (machine freq).Run s ops os s') (h : s.Good freq) :
    s'.aged = s.aged ∨ elapsedNs freq s'.aged ∈ os.reduceOption := by
  induction r with
  | nil => exact .inl rfl
  | @cons s s₁ s' op o ops os hen hex _ ih =>
    obtain ⟨o', s₂, e, h₁⟩ := machine_sound freq s op h hen
    rw [hex] at e
    cases e
    cases op with
    | timerInit cpuid c =>
      cases hex
      exact ih h₁
    | getMonoTime c =>
      have hv := h.mono_time hen
      cases hex
      rw [List.reduceOption_cons_of_some]
      rcases ih h₁ with e | hm
      · rcases le_total s.aged (c - s.timer.cntpInit) with hmax | hmax
        · right
          rw [e]
          simp only [max_eq_right hmax, hv]
          exact List.mem_cons_self
        · left
          rw [e]
          exact max_eq_left hmax
      · exact .inr (List.mem_cons_of_mem _ hm)

/-- The time never goes back in the runs in which `timer_init` is called only as long as no time of a
nanosecond or more has been read; any other call of `timer_init` sets it back at once. -/
theorem mono_time_kept (freq : ℕ) (hf : 1000000 ≤ freq) :
    (∀ ops os s, (keeping freq).Run .start ops os s → Nondecreasing os) ∧
    ∀ ops os s, (machine freq).Run .start ops os s → ∀ cpuid c,
      (machine freq).enabled s (.timerInit cpuid c) → ¬ s.Young freq →
        ∃ s', (machine freq).Run .start (ops ++ [.timerInit cpuid c, .getMonoTime c])
          (os ++ [none, some 0]) s' ∧ ¬ Nondecreasing (os ++ [none, some 0]) := by
  have htick : 0 < freq / 1000 / 1000 := by omega
  have hgood : Sys.Good freq .start := ⟨nofun, nofun⟩
  constructor
  · intro ops os s r
    have hyoung : Sys.Young freq .start := by
      show 0 * 1000 < freq / 1000 / 1000
      omega
    exact (keeping_nondecreasing r ⟨hgood, .inl hyoung⟩).1
  · intro ops os s r cpuid c hen hold
    have hage : s.aged ≠ 0 := by
      intro e
      refine hold ?_
      rw [Sys.Young, e]
      omega
    -- a read has returned a positive time
    have hread : elapsedNs freq s.aged ∈ os.reduceOption :=
      (aged_read r hgood).resolve_left hage
    have hpos : 0 < elapsedNs freq s.aged := Nat.div_pos (not_lt.1 hold) htick
    have hg : Sys.Good freq ⟨s.timer.timerInit cpuid c freq, c, true, s.aged⟩ :=
      ⟨fun _ => tickPerUs_timerInit _ _ _ _, fun _ => by simp⟩
    have hen' : (machine freq).enabled ⟨s.timer.timerInit cpuid c freq, c, true, s.aged⟩
        (.getMonoTime c) := ⟨rfl, le_rfl, hen.2.2, by simp⟩
    have hzero : (s.timer.timerInit cpuid c freq).platGetMonoTime c = 0 := by
      rw [hg.mono_time hen']
      simp [elapsedNs]
    have hex : (machine freq).exec ⟨s.timer.timerInit cpuid c freq, c, true, s.aged⟩ (.getMonoTime c) =
        .ok (some 0, ⟨s.timer.timerInit cpuid c freq, c, true,
          max s.aged (c - (s.timer.timerInit cpuid c freq).cntpInit)⟩) := by
      simp only [machine, hzero]
    refine ⟨_, r.append (.cons hen rfl (.cons hen' hex .nil)), fun hmono => ?_⟩
    have e : (os ++ [none, some 0]).reduceOption = os.reduceOption ++ [0] := by
      simp [List.reduceOption]
    rw [Nondecreasing, e, List.pairwise_append] at hmono
    have := hmono.2.2 _ hread 0 List.mem_cons_self
    omega

/-- Both cores are started before the time is read, and then again. -/
theorem mono_time_kept_board : ∃ s s',
    (keeping 19200000).Run .start
      [.timerInit 0 1000, .timerInit 1 1010, .getMonoTime 1029, .getMonoTime 1048]
      [none, none, some 1000, some 2000] s ∧
    Nondecreasing [none, none, some 1000, some 2000] ∧
    (machine 19200000).Run .start
      ([.timerInit 0 1000, .timerInit 1 1010, .getMonoTime 1029, .getMonoTime 1048] ++
        [.timerInit 2 1048, .getMonoTime 1048])
      ([none, none, some 1000, some 2000] ++ [none, some 0]) s' ∧
    ¬ Nondecreasing ([none, none, some 1000, some 2000] ++ [none, some 0]) := by
  obtain ⟨hkeep, hback⟩ := mono_time_kept 19200000 (by norm_num)
  have r : ∃ s, (keeping 19200000).Run .start
      [.timerInit 0 1000, .timerInit 1 1010, .getMonoTime 1029, .getMonoTime 1048]
      [none, none, some 1000, some 2000] s ∧
      (machine 19200000).enabled s (.timerInit 2 1048) ∧ ¬ s.Young 19200000 :=
    ⟨_, .cons ⟨⟨by decide, by decide, by decide⟩, by decide⟩ rfl
      (.cons ⟨⟨by decide, by decide, by decide⟩, by decide⟩ rfl
      (.cons ⟨⟨rfl, by decide, by decide, by decide⟩, trivial⟩ rfl
      (.cons ⟨⟨rfl, by decide, by decide, by decide⟩, trivial⟩ rfl .nil))),
      ⟨by decide, by decide, by decide⟩, by decide⟩
  obtain ⟨s, r, hen, hold⟩ := r
  obtain ⟨s', r', hno⟩ := hback _ _ s r.of_restrict 2 1048 hen hold
  exact ⟨s, s', r, hkeep _ _ _ r, r', hno⟩

/-- The second core is started after the time has been read on the first one. -/
theorem mono_time_set_back :
    ∃ s, (machine 19200000).Run .start
      [.timerInit 0 1000, .getMonoTime 1019, .timerInit 1 1100, .getMonoTime 1100]
      [none, some 1000, none, some 0] s ∧ ¬ Nondecreasing [none, some 1000, none, some 0] := by
  refine ⟨_, .cons ⟨by decide, by decide, by decide⟩ rfl
    (.cons ⟨rfl, by decide, by decide, by decide⟩ rfl
    (.cons ⟨by decide, by decide, by decide⟩ rfl
    (.cons ⟨rfl, by decide, by decide, by decide⟩ rfl .nil))), ?_⟩
  simp [Nondecreasing, List.reduceOption]

/-! ## Nanoseconds -/

/-- Dividing by the whole part `q` of `f / M` gives the quotient by `f / M` itself when the error is
covered by the remainder. -/
lemma div_eq_mul_div_iff {n q M r : ℕ} (hq : 0 < q) (hM : 0 < M) :
    n / q = n * M / (q * M + r) ↔ n * r ≤ (q * M + r) * (n % q) := by
  have hf : 0 < q * M + r := Nat.add_pos_left (Nat.mul_pos hq hM) r
  have hn : q * (n / q) + n % q = n := Nat.div_add_mod n q
  have hs : n % q < q := Nat.mod_lt n hq
  generalize n / q = m at hn ⊢
  generalize n % q = s at hn hs ⊢
  subst hn
  -- the quotient on the right is never the larger one
  have hle : (q * m + s) * M / (q * M + r) ≤ m := by
    rw [← Nat.lt_succ_iff, Nat.div_lt_iff_lt_mul hf]
    calc (q * m + s) * M < (q * m + q) * M := Nat.mul_lt_mul_of_pos_right (by omega) hM
      _ = (m + 1) * (q * M) := by ring
      _ ≤ (m + 1) * (q * M + r) := Nat.mul_le_mul_left _ (Nat.le_add_right _ _)
  calc m = (q * m + s) * M / (q * M + r) ↔ m ≤ (q * m + s) * M / (q * M + r) :=
        ⟨le_of_eq, fun h => le_antisymm h hle⟩
    _ ↔ m * (q * M + r) ≤ (q * m + s) * M := Nat.le_div_iff_mul_le hf
    _ ↔ m * r ≤ s * M := by constructor <;> intro h <;> nlinarith
    _ ↔ q * (m * r) ≤ q * (s * M) := (Nat.mul_le_mul_left_iff hq).symm
    _ ↔ (q * m + s) * r ≤ (q * M + r) * s := by constructor <;> intro h <;> nlinarith

/-- A read `d` ticks after `plat_timer_init`. -/
lemma platGetMonoTime_platTimerInit (t : Timer) (cpuid c freq : ℕ) {d : ℕ}
    (hd : d * 1000 < 2 ^ 64) :
    (t.platTimerInit cpuid c freq).platGetMonoTime ((c + d) % 2 ^ 64) = elapsedNs freq d := by
  have e : subWord ((c + d) % 2 ^ 64) c = d := by
    rw [subWord]
    omega
  rw [platGetMonoTime]
  simp only [platTimerInit, e, nsInUs, Nat.mod_eq_of_lt hd]
  rfl

/-- When the time `d` ticks after `plat_timer_init` is the one in nanoseconds, rounded down: exactly if
the fraction of a megahertz that `tick_per_us` drops is made up for by the remainder of the division. It
is for every `d` only if no fraction is dropped. -/
theorem mono_time_rounded_iff (t : Timer) (cpuid c freq : ℕ) (hf : 1000000 ≤ freq)
    (hf' : freq < 2 ^ 64) :
    (∀ d, d * 1000 < 2 ^ 64 →
      ((t.platTimerInit cpuid c freq).platGetMonoTime ((c + d) % 2 ^ 64) = d * 10 ^ 9 / freq ↔
        d * 1000 * (freq % 1000000) ≤ freq * (d * 1000 % (freq / 1000000)))) ∧
    ((∀ d, d * 1000 < 2 ^ 64 →
      (t.platTimerInit cpuid c freq).platGetMonoTime ((c + d) % 2 ^ 64) = d * 10 ^ 9 / freq) ↔
        freq % 1000000 = 0) := by
  have hq : 0 < freq / 1000000 := Nat.div_pos hf (by norm_num)
  have key : ∀ d, d * 1000 < 2 ^ 64 →
      ((t.platTimerInit cpuid c freq).platGetMonoTime ((c + d) % 2 ^ 64) = d * 10 ^ 9 / freq ↔
        d * 1000 * (freq % 1000000) ≤ freq * (d * 1000 % (freq / 1000000))) := by
    intro d hd
    have hfreq : freq / 1000000 * 1000000 + freq % 1000000 = freq := Nat.div_add_mod' freq 1000000
    have h := div_eq_mul_div_iff (n := d * 1000) (r := freq % 1000000) hq (by norm_num : 0 < 1000000)
    rw [hfreq, Nat.mul_assoc] at h
    rw [platGetMonoTime_platTimerInit t cpuid c freq hd, elapsedNs, Nat.div_div_eq_div_mul]
    exact h
  refine ⟨key, fun h => ?_, fun h d hd => ?_⟩
  · -- a time of `tick_per_us` ticks has no remainder
    have hd : freq / 1000000 * 1000 < 2 ^ 64 := by omega
    have hle := (key _ hd).1 (h _ hd)
    rw [Nat.mul_mod_right, Nat.mul_zero] at hle
    have hpos : 0 < freq / 1000000 * 1000 := by omega
    exact (Nat.mul_eq_zero.1 (Nat.le_zero.1 hle)).resolve_left hpos.ne'
  · rw [key d hd, h]
    exact Nat.zero_le _

/-- The statement for a frequency of 62 MHz, where no fraction is dropped. -/
theorem mono_time_rounded_whole_mhz : 62000000 % 1000000 = 0 ∧
    ∀ d, d * 1000 < 2 ^ 64 →
      (Sys.start.timer.platTimerInit 0 1000 62000000).platGetMonoTime ((1000 + d) % 2 ^ 64) =
        d * 10 ^ 9 / 62000000 :=
  ⟨by norm_num, (mono_time_rounded_iff Sys.start.timer 0 1000 62000000 (by norm_num)
    (by norm_num)).2.2 (by norm_num)⟩

/-- At 19.2 MHz a second is measured as 1010526315 nanoseconds. -/
theorem mono_time_second_too_long :
    (Sys.start.timer.platTimerInit 0 1000 19200000).platGetMonoTime (1000 + 19200000) = 1010526315 ∧
      1010526315 ≠ 19200000 * 10 ^ 9 / 19200000 := by
  decide

end Timer

end KingdoKernel
