import KingdoKernel.Lib.Linear
import KingdoKernel.Sync.Basic

/-!
# Spin locks

Any number of cores call the operations of a machine `M` whose code runs between `lock` and `unlock`. The
lock is taken and released by the instructions of `spin_lock` and `spin_unlock`; between them the code of
the operation runs in steps of its own (`Code`), on data that other cores may see half way through. Steps of
all cores interleave in any order, store-exclusives may fail and cores may take exceptions at any point.
-/

namespace KingdoKernel.Sync

variable {ι : Type*}

/-- `spinlock_t`, with the monitors of the cores. -/
abbrev SpinlockT (ι : Type*) := Cell ι (BitVec Width.w.bits)

/-! ## One core in `spin_lock` -/

/-- The core has written the lock. -/
def Local.Holds (l : Local .w) : Prop :=
  (l.pc = 3 ∧ l.reg 0 = 0) ∨ l.pc = 4 ∨ l.pc = 7

/-- What core `i` knows in `spin_lock`. Before the test and at `wfe` the monitor is closed, and then what
was read is still there, or the event register is set. -/
def LockInv (c : SpinlockT ι) (i : ι) (l : Local .w) : Prop :=
  l.reg 2 = 1 ∧
  match l.pc with
  | 0 | 3 | 4 | 6 | 7 => True
  | 1 => (c.mon i = true → c.val = l.reg 0) ∧ (c.mon i = true ∨ c.event i = true)
  | 2 => c.mon i = true → c.val = 0
  | 5 => (c.mon i = true → c.val ≠ 0) ∧ (c.mon i = true ∨ c.event i = true)
  | _ => False

/-- The invariant holds at the entry of `spin_lock`. -/
lemma lockInv_entry (c : SpinlockT ι) (i : ι) : LockInv c i spinLockEntry := by
  exact ⟨rfl, trivial⟩

/-- A core at the entry of `spin_lock` does not hold the lock. -/
lemma spinLockEntry_not_holds : ¬ spinLockEntry.Holds := by
  rintro (⟨h, -⟩ | h | h) <;> cases h

/-- The positions of the template. -/
lemma LockInv.pc_cases {c : SpinlockT ι} {i : ι} {l : Local .w} (h : LockInv c i l) :
    l.pc = 0 ∨ l.pc = 1 ∨ l.pc = 2 ∨ l.pc = 3 ∨ l.pc = 4 ∨ l.pc = 5 ∨ l.pc = 6 ∨ l.pc = 7 := by
  obtain ⟨-, h⟩ := h
  split at h
  all_goals first | omega | exact h.elim

/-- Steps of the others do not take away what the core knows. -/
lemma LockInv.frame {c c' : SpinlockT ι} {i : ι} {l : Local .w} (h : LockInv c i l)
    (hf : c.Frame c' i) : LockInv c' i l := by
  have hw : c.mon i = true ∨ c.event i = true → c'.mon i = true ∨ c'.event i = true := by
    intro hw
    cases hw with
    | inl e => exact hf.wakes e
    | inr e => exact .inr (hf.event e)
  obtain ⟨h2, h⟩ := h
  refine ⟨h2, ?_⟩
  split at h
  · trivial
  · trivial
  · trivial
  · trivial
  · trivial
  · refine ⟨fun e => ?_, hw h.2⟩
    obtain ⟨e, hv⟩ := hf.closed e
    rw [hv, h.1 e]
  · intro e
    obtain ⟨e, hv⟩ := hf.closed e
    rw [hv, h e]
  · refine ⟨fun e => ?_, hw h.2⟩
    obtain ⟨e, hv⟩ := hf.closed e
    rw [hv]
    exact h.1 e
  · exact h

variable [DecidableEq ι]

/-- One instruction of `spin_lock`: the core keeps what it knows, and the lock is written only from 0 to 1
by the core that then holds it. -/
lemma LockInv.step {c : SpinlockT ι} {i : ι} {l : Local .w} (h : LockInv c i l) (ok : Bool) :
    (l.pc = 7 ∧ step spinLock i ok c l = none) ∨
    ∃ c' l', step spinLock i ok c l = some (c', l') ∧ LockInv c' i l' ∧
      ((c'.val = c.val ∧ (l'.Holds ↔ l.Holds)) ∨
        (c.val = 0 ∧ c'.val = 1 ∧ ¬ l.Holds ∧ l'.Holds)) := by
  obtain ⟨pc, reg, z⟩ := l
  have hpc := h.pc_cases
  obtain ⟨h2, h⟩ := h
  dsimp only at hpc h2 h
  obtain rfl | rfl | rfl | rfl | rfl | rfl | rfl | rfl := hpc
  · -- the load closes the monitor on the value it reads
    refine .inr ⟨_, _, rfl, ⟨by simpa [Local.set] using h2, ?_⟩, .inl ⟨rfl, ?_⟩⟩
    · simp [Local.set]
    · simp [Local.Holds, Local.set]
  · by_cases e : reg 0 = 0
    · refine .inr ⟨c, ⟨2, reg, z⟩, ?_, ⟨h2, fun hm => ?_⟩, .inl ⟨rfl, by simp [Local.Holds]⟩⟩
      · rw [step_of_fetch rfl, exec_cbnz_zero 5 e]
        rfl
      · rw [h.1 hm, e]
    · refine .inr ⟨c, ⟨5, reg, z⟩, ?_, ⟨h2, fun hm => ?_, h.2⟩, .inl ⟨rfl, by simp [Local.Holds]⟩⟩
      · rw [step_of_fetch rfl, exec_cbnz_ne 5 e]
        rfl
      · rw [h.1 hm]
        exact e
  · -- the monitor is closed only while the lock is 0
    refine .inr ⟨_, _, rfl, ⟨by simpa [Local.set] using h2, trivial⟩, ?_⟩
    rcases c.storeEx_cases i ok (reg 2) with ⟨hm, e, hv⟩ | ⟨e, hv⟩
    · refine .inr ⟨h hm, ?_, ?_, ?_⟩
      · rw [hv, h2]
      · simp [Local.Holds]
      · simp [Local.Holds, Local.set, e]
    · refine .inl ⟨hv, ?_⟩
      simp [Local.Holds, Local.set, e]
  · by_cases e : reg 0 = 0
    · refine .inr ⟨c, ⟨4, reg, z⟩, ?_, ⟨h2, trivial⟩, .inl ⟨rfl, ?_⟩⟩
      · rw [step_of_fetch rfl, exec_cbnz_zero 0 e]
        rfl
      · exact iff_of_true (.inr (.inl rfl)) (.inl ⟨rfl, e⟩)
    · refine .inr ⟨c, ⟨0, reg, z⟩, ?_, ⟨h2, trivial⟩, .inl ⟨rfl, ?_⟩⟩
      · rw [step_of_fetch rfl, exec_cbnz_ne 0 e]
        rfl
      · exact iff_of_false (by simp [Local.Holds]) (by simpa [Local.Holds] using e)
  · exact .inr ⟨_, _, rfl, ⟨h2, trivial⟩, .inl ⟨rfl, by simp [Local.Holds, Local.goto]⟩⟩
  · -- without an event the core stays where it is
    cases e : c.wfe i with
    | none =>
      refine .inr ⟨c, ⟨5, reg, z⟩, ?_, ⟨h2, h⟩, .inl ⟨rfl, Iff.rfl⟩⟩
      rw [step_of_fetch rfl, exec_wfe_none e]
    | some c' =>
      refine .inr ⟨c', ⟨6, reg, z⟩, ?_, ⟨h2, trivial⟩, .inl ⟨(Cell.wfe_eq_some e).2, ?_⟩⟩
      · rw [step_of_fetch rfl, exec_wfe_some e]
        rfl
      · simp [Local.Holds]
  · exact .inr ⟨_, _, rfl, ⟨h2, trivial⟩, .inl ⟨rfl, by simp [Local.Holds, Local.goto]⟩⟩
  · exact .inl ⟨rfl, rfl⟩

/-! ## The system -/

/-- The code of the operations, in steps that may be interleaved with those of other cores. -/
structure Code (ε σ ω κ ο : Type*) where
  start : ω → κ
  step : κ → σ → Except ε ((κ ⊕ ο) × σ)

/-- A core and the operation it is in. -/
inductive Core (ω κ ο : Type*) where
  | idle
  | locking (op : ω) (l : Local .w)
  | critical (op : ω) (k : κ)
  | unlocking (o : ο) (l : Local .w)

/-- The lock, the cores and the data the lock is for. `serial` is the data as the last critical section
that ended left them. -/
structure Spin (ι σ ω κ ο : Type*) where
  lock : SpinlockT ι
  core : ι → Core ω κ ο
  data : σ
  serial : σ

variable {ε σ ω κ ο : Type*}

/-- The operation of a core that has not ended its critical section. -/
def Core.op? : Core ω κ ο → Option ω
  | idle => none
  | locking op _ => some op
  | critical op _ => some op
  | unlocking _ _ => none

/-- The core holds the lock. -/
def Core.Holds : Core ω κ ο → Prop
  | idle => False
  | locking _ l => l.Holds
  | critical _ _ => True
  | unlocking _ l => l.pc = 0

namespace Spin

/-- One step of core `i`. -/
def run (C : Code ε σ ω κ ο) (s : Spin ι σ ω κ ο) (i : ι) (ok : Bool) :
    Except ε (Option (Event ι ω ο) × Spin ι σ ω κ ο) :=
  match s.core i with
  | .idle => .ok (none, s)
  | .locking op l =>
    match step spinLock i ok s.lock l with
    | some (c, l) => .ok (none, { s with lock := c, core := Function.update s.core i (.locking op l) })
    | none => .ok (none, { s with core := Function.update s.core i (.critical op (C.start op)) })
  | .critical op k =>
    match C.step k s.data with
    | .error e => .error e
    | .ok (.inl k, t) =>
      .ok (none, { s with core := Function.update s.core i (.critical op k), data := t })
    | .ok (.inr o, t) =>
      .ok (none, { s with
        core := Function.update s.core i (.unlocking o spinUnlockEntry), data := t, serial := t })
  | .unlocking o l =>
    match step spinUnlock i ok s.lock l with
    | some (c, l) => .ok (none, { s with lock := c, core := Function.update s.core i (.unlocking o l) })
    | none => .ok (some (.ret i o), { s with core := Function.update s.core i .idle })

/-- The system driven by its callers. An operation is called when `M` allows it after the critical sections
that have ended and it goes together (`apart`) with the operations under way. -/
def machine (M : Machine ε σ ω ο) (C : Code ε σ ω κ ο) (apart : ω → ω → Prop) :
    Machine ε (Spin ι σ ω κ ο) (Label ι ω) (Option (Event ι ω ο)) where
  enabled s
    | .call i op => s.core i = .idle ∧ M.enabled s.serial op ∧
        ∀ j op', (s.core j).op? = some op' → apart op' op
    | .run i _ => s.core i ≠ .idle
    | .disturb _ _ => True
  exec s
    | .call i op =>
      .ok (some (.call i op), { s with core := Function.update s.core i (.locking op spinLockEntry) })
    | .run i ok => s.run C i ok
    | .disturb i keep => .ok (none, { s with lock := s.lock.disturb i keep })

/-- All cores idle and the lock free. -/
def start (d : σ) : Spin ι σ ω κ ο where
  lock := ⟨0, fun _ => false, fun _ => false⟩
  core _ := .idle
  data := d
  serial := d

end Spin

/-! ## Mutual exclusion -/

/-- What core `i` knows of the lock, whatever its operation does. -/
def LockCore (c : SpinlockT ι) (i : ι) : Core ω κ ο → Prop
  | .idle => True
  | .locking _ l => LockInv c i l
  | .critical _ _ => True
  | .unlocking _ l => l.pc = 0 ∨ l.pc = 1

/-- The lock is 1 when there is a holder, and there is at most one. -/
structure Spin.Excl (s : Spin ι σ ω κ ο) : Prop where
  owner : ∃ h : Option ι, s.lock.val = (if h.isSome then 1 else 0) ∧
    ∀ i, (s.core i).Holds ↔ h = some i
  core : ∀ i, LockCore s.lock i (s.core i)

/-- What happens to the lock in a step of core `i` that brings it from `x` to `y`. -/
inductive LockMove (v v' : BitVec Width.w.bits) (x y : Core ω κ ο) : Prop where
  | keep : v' = v → (y.Holds ↔ x.Holds) → LockMove v v' x y
  | acquire : v = 0 → v' = 1 → y.Holds → LockMove v v' x y
  | release : x.Holds → v' = 0 → ¬ y.Holds → LockMove v v' x y

namespace Spin

variable {M : Machine ε σ ω ο} {C : Code ε σ ω κ ο} {apart : ω → ω → Prop}
variable {s s' : Spin ι σ ω κ ο} {i j : ι}

omit [DecidableEq ι] in
/-- Two cores do not hold the lock together. -/
lemma Excl.unique (h : s.Excl) (hi : (s.core i).Holds) (hj : (s.core j).Holds) : i = j := by
  obtain ⟨o, -, ho⟩ := h.owner
  have e := (ho i).1 hi
  rw [(ho j).1 hj] at e
  cases e
  rfl

/-- The holder after a step. -/
lemma Excl.owner_move (h : s.Excl) {c : SpinlockT ι} {x : Core ω κ ο}
    (hm : LockMove s.lock.val c.val (s.core i) x) :
    ∃ o : Option ι, c.val = (if o.isSome then 1 else 0) ∧
      ∀ j, (Function.update s.core i x j).Holds ↔ o = some j := by
  obtain ⟨o, hv, ho⟩ := h.owner
  cases hm with
  | keep e hx =>
    refine ⟨o, e.trans hv, fun j => ?_⟩
    by_cases hj : j = i
    · subst hj
      rw [Function.update_self, hx, ho]
    · rw [Function.update_of_ne hj, ho]
  | acquire h0 h1 hx =>
    have hnone : o = none := by
      cases o with
      | none => rfl
      | some k =>
        rw [h0] at hv
        simp at hv
    subst hnone
    refine ⟨some i, h1, fun j => ?_⟩
    by_cases hj : j = i
    · subst hj
      rw [Function.update_self]
      exact iff_of_true hx rfl
    · rw [Function.update_of_ne hj, ho]
      exact iff_of_false (by simp) (fun e => hj (Option.some.inj e).symm)
  | release hx h0 hy =>
    have e : o = some i := (ho i).1 hx
    refine ⟨none, h0, fun j => ?_⟩
    by_cases hj : j = i
    · subst hj
      rw [Function.update_self]
      exact iff_of_false hy (by simp)
    · rw [Function.update_of_ne hj, ho, e]
      exact iff_of_false (fun e => hj (Option.some.inj e).symm) (by simp)

omit [DecidableEq ι] in
/-- What a core knows of the lock is not taken away by steps of the others. -/
lemma lockCore_frame {c c' : SpinlockT ι} {x : Core ω κ ο} (h : LockCore c i x) (hf : c.Frame c' i) :
    LockCore c' i x := by
  cases x with
  | idle => trivial
  | locking op l => exact LockInv.frame h hf
  | critical op k => trivial
  | unlocking o l => exact h

/-- A step of core `i`. -/
lemma Excl.move (h : s.Excl) {c : SpinlockT ι} {x : Core ω κ ο} (d t : σ)
    (hf : ∀ j, j ≠ i → s.lock.Frame c j) (hm : LockMove s.lock.val c.val (s.core i) x)
    (hx : LockCore c i x) : Excl ⟨c, Function.update s.core i x, d, t⟩ := by
  refine ⟨h.owner_move hm, fun j => ?_⟩
  by_cases hj : j = i
  · subst hj
    dsimp only
    rw [Function.update_self]
    exact hx
  · dsimp only
    rw [Function.update_of_ne hj]
    exact lockCore_frame (h.core j) (hf j hj)

/-- A step of a core that returns, one case for each place where the core can be. -/
lemma Excl.run (h : s.Excl) {ok : Bool} {e : Option (Event ι ω ο)} (hex : s.run C i ok = .ok (e, s')) :
    s'.Excl := by
  have hc := h.core i
  rw [Spin.run] at hex
  cases hi : s.core i with
  | idle =>
    rw [hi] at hex
    cases hex
    exact h
  | locking op l =>
    rw [hi] at hc hex
    rcases LockInv.step hc ok with ⟨hpc, e⟩ | ⟨c, l', e, hl', hm⟩
    · simp only [e] at hex
      cases hex
      refine h.move (c := s.lock) _ _ (fun j _ => .refl _ j) (.keep rfl ?_) trivial
      rw [hi]
      exact iff_of_true trivial (.inr (.inr hpc))
    · simp only [e] at hex
      cases hex
      refine h.move _ _ (fun j hj => frame_step hj e) ?_ hl'
      rw [hi]
      rcases hm with ⟨hv, hh⟩ | ⟨h0, h1, -, hh⟩
      · exact .keep hv hh
      · exact .acquire h0 h1 hh
  | critical op k =>
    rw [hi] at hex
    dsimp only at hex
    split at hex
    · cases hex
    · cases hex
      refine h.move (c := s.lock) _ _ (fun j _ => .refl _ j) (.keep rfl ?_) trivial
      rw [hi]
      exact Iff.rfl
    · cases hex
      refine h.move (c := s.lock) _ _ (fun j _ => .refl _ j) (.keep rfl ?_) (.inl rfl)
      rw [hi]
      exact iff_of_true rfl trivial
  | unlocking o l =>
    rw [hi] at hc hex
    obtain ⟨pc, reg, z⟩ := l
    obtain rfl | rfl : pc = 0 ∨ pc = 1 := hc
    · have e : step spinUnlock i ok s.lock ⟨0, reg, z⟩ = some (s.lock.store i 0, ⟨1, reg, z⟩) := rfl
      simp only [e] at hex
      cases hex
      refine h.move _ _ (fun j hj => frame_step hj e) ?_ (.inr rfl)
      rw [hi]
      exact .release rfl rfl (by simp [Core.Holds])
    · have e : step spinUnlock i ok s.lock ⟨1, reg, z⟩ = none := rfl
      simp only [e] at hex
      cases hex
      refine h.move (c := s.lock) _ _ (fun j _ => .refl _ j) (.keep rfl ?_) trivial
      rw [hi]
      exact iff_of_false id (by simp [Core.Holds])

/-- Every step that returns keeps exclusion. -/
lemma Excl.step (h : s.Excl) {a : Label ι ω} {o} (hen : (machine M C apart).enabled s a)
    (hex : (machine M C apart).exec s a = .ok (o, s')) : s'.Excl := by
  cases a with
  | call i op =>
    cases hex
    refine h.move (c := s.lock) _ _ (fun j _ => .refl _ j) (.keep rfl ?_) (lockInv_entry s.lock i)
    rw [hen.1]
    exact iff_of_false spinLockEntry_not_holds id
  | run i ok => exact h.run hex
  | disturb i keep =>
    cases hex
    exact ⟨h.owner, fun j => lockCore_frame (h.core j) (Cell.frame_disturb keep)⟩

omit [DecidableEq ι] in
/-- At the start the lock is free. -/
lemma start_excl (d : σ) : (start d : Spin ι σ ω κ ο).Excl := by
  refine ⟨⟨none, rfl, fun i => ?_⟩, fun i => trivial⟩
  exact iff_of_false id (by simp)

/-- Every reached state has exclusion. -/
lemma Excl.of_run (h : s.Excl) {ls os} (r : (machine M C apart).Run s ls os s') : s'.Excl := by
  induction r with
  | nil => exact h
  | cons hen hex _ ih => exact ih (h.step hen hex)

/-- In every state that the cores reach, at most one of them is between `lock` and `unlock`, and the lock is
1 exactly when one of them holds it. -/
theorem spin_lock_mutual_exclusion {d : σ} {ls os} (r : (machine M C apart).Run (start d) ls os s) :
    (∀ i j, (s.core i).Holds → (s.core j).Holds → i = j) ∧
      (s.lock.val = 1 ↔ ∃ i, (s.core i).Holds) ∧ (s.lock.val = 0 ↔ ∀ i, ¬ (s.core i).Holds) := by
  have h := (start_excl d).of_run r
  refine ⟨fun i j => h.unique, ?_⟩
  obtain ⟨o, hv, ho⟩ := h.owner
  cases o with
  | none =>
    rw [hv]
    simp [ho]
  | some i =>
    rw [hv]
    simp [ho]

/-- A counter. -/
def counter : Machine Unit ℕ Unit ℕ where
  enabled _ _ := True
  exec n _ := .ok (n, n + 1)

/-- The counter is read in one step and written in the next. -/
def counterCode : Code Unit ℕ Unit (Option ℕ) ℕ where
  start _ := none
  step k n :=
    match k with
    | none => .ok (.inl (some n), n)
    | some m => .ok (.inr m, m + 1)

omit [DecidableEq ι] in
/-- A core with an operation is not idle. -/
lemma ne_idle_of_op? {x : Core ω κ ο} {op : ω} (h : x.op? = some op) : x ≠ .idle := by
  intro e
  subst e
  cases h

/-- One core has read the counter and holds the lock, the other has found it taken. -/
lemma counter_run : ∃ s : Spin Bool ℕ Unit (Option ℕ) ℕ, ∃ ls os,
    (machine counter counterCode fun _ _ => True).Run (start 5) ls os s ∧
      s.core false = .critical () (some 5) ∧ ∃ l, s.core true = .locking () l ∧ l.pc = 5 := by
  have hrun {x : Core Unit (Option ℕ) ℕ} (h : x.op? = some ()) : x ≠ .idle := ne_idle_of_op? h
  refine ⟨_, [.call false (), .call true (), .run false true, .run false true, .run false true,
    .run false true, .run false true, .run false true, .run false true, .run true true, .run true true],
    _, .cons ⟨rfl, trivial, fun _ _ _ => trivial⟩ rfl <|
    .cons ⟨rfl, trivial, fun _ _ _ => trivial⟩ rfl <| .cons (hrun rfl) rfl <| .cons (hrun rfl) rfl <|
    .cons (hrun rfl) rfl <| .cons (hrun rfl) rfl <| .cons (hrun rfl) rfl <| .cons (hrun rfl) rfl <|
    .cons (hrun rfl) rfl <| .cons (hrun rfl) rfl <| .cons (hrun rfl) rfl .nil, rfl, _, rfl, rfl⟩

/-- One core is in its critical section, the other one waits. -/
theorem spin_lock_mutual_exclusion_counter : ∃ s : Spin Bool ℕ Unit (Option ℕ) ℕ, ∃ ls os,
    (machine counter counterCode fun _ _ => True).Run (start 5) ls os s ∧ (s.core false).Holds ∧
      ∀ i j, (s.core i).Holds → (s.core j).Holds → i = j := by
  obtain ⟨s, ls, os, r, e, -⟩ := counter_run
  refine ⟨s, ls, os, r, ?_, ?_⟩
  · rw [e]
    trivial
  · exact (spin_lock_mutual_exclusion r).1

end Spin

/-- The code, run alone from `k` in state `s`, ends with output `o` in state `s'`. -/
inductive Code.Finishes (C : Code ε σ ω κ ο) : κ → σ → ο → σ → Prop where
  | done {k s o s'} :
    C.step k s = .ok (.inr o, s') →
    Finishes C k s o s'
  | step {k s k' s1 o s'} :
    C.step k s = .ok (.inl k', s1) →
    Finishes C k' s1 o s' →
    Finishes C k s o s'

/-- The code, run alone, computes the operations of `M`. -/
def Code.Implements (C : Code ε σ ω κ ο) (M : Machine ε σ ω ο) : Prop :=
  ∀ s op o s', M.enabled s op → M.exec s op = .ok (o, s') → C.Finishes (C.start op) s o s'

/-- An operation stays allowed while operations that go together with it are executed. -/
structure Stable (M : Machine ε σ ω ο) (P : σ → Prop) (apart : ω → ω → Prop) : Prop where
  symm : ∀ op op', apart op op' → apart op' op
  keep : ∀ s op op' o s', P s → M.enabled s op → M.enabled s op' → apart op op' →
    M.exec s op = .ok (o, s') → M.enabled s' op'

/-! ## The invariant -/

/-- What is known of core `i`. A core in its critical section will finish with what the machine returns on
`serial`; one that has finished it has nothing left but the store that frees the lock. -/
def CoreInv (M : Machine ε σ ω ο) (C : Code ε σ ω κ ο) (s : Spin ι σ ω κ ο) (i : ι) :
    Core ω κ ο → Prop
  | .idle => True
  | .locking _ l => LockInv s.lock i l
  | .critical op k => ∃ o t, C.Finishes k s.data o t ∧ M.exec s.serial op = .ok (o, t)
  | .unlocking _ l => l.pc = 0 ∨ l.pc = 1

/-- The invariant of the system. -/
structure Spin.Inv (M : Machine ε σ ω ο) (C : Code ε σ ω κ ο) (P : σ → Prop) (apart : ω → ω → Prop)
    (s : Spin ι σ ω κ ο) : Prop where
  good : P s.serial
  /-- the lock is 1 when there is a holder, and there is at most one -/
  owner : ∃ h : Option ι, s.lock.val = (if h.isSome then 1 else 0) ∧
    ∀ i, (s.core i).Holds ↔ h = some i
  core : ∀ i, CoreInv M C s i (s.core i)
  enabled : ∀ i op, (s.core i).op? = some op → M.enabled s.serial op
  apart : ∀ i j op op', i ≠ j → (s.core i).op? = some op → (s.core j).op? = some op' → apart op op'
  /-- the data are touched in critical sections only -/
  settled : (∀ i op k, s.core i ≠ .critical op k) → s.data = s.serial

/-- How far the caller on a core is. -/
def Core.status : Core ω κ ο → Status ω ο
  | idle => .idle
  | locking op _ => .pending op
  | critical op _ => .pending op
  | unlocking o _ => .done o

def Spin.status (s : Spin ι σ ω κ ο) (i : ι) : Status ω ο := (s.core i).status

namespace Spin

variable {M : Machine ε σ ω ο} {C : Code ε σ ω κ ο} {P : σ → Prop} {apart : ω → ω → Prop}
variable {s : Spin ι σ ω κ ο} {i j : ι}

omit [DecidableEq ι] in
/-- The part of the invariant that is about the lock. -/
lemma Inv.excl (h : Inv M C P apart s) : s.Excl := by
  refine ⟨h.owner, fun i => ?_⟩
  have hc := h.core i
  cases e : s.core i with
  | idle => trivial
  | locking op l =>
    rw [e] at hc
    exact hc
  | critical op k => trivial
  | unlocking o l =>
    rw [e] at hc
    exact hc

omit [DecidableEq ι] in
/-- Two cores do not hold the lock together. -/
lemma Inv.unique (h : Inv M C P apart s) (hi : (s.core i).Holds) (hj : (s.core j).Holds) : i = j :=
  h.excl.unique hi hj

omit [DecidableEq ι] in
/-- The lock is free when no core holds it. -/
lemma Inv.free (h : Inv M C P apart s) (hfree : ∀ i, ¬ (s.core i).Holds) : s.lock.val = 0 := by
  obtain ⟨o, hv, ho⟩ := h.owner
  cases o with
  | none => exact hv
  | some i => exact absurd ((ho i).2 rfl) (hfree i)

omit [DecidableEq ι] in
/-- Outside critical sections the data are settled, so core `i` finds them settled when it holds the lock
and is not in its own. -/
lemma Inv.settled_of_holds (h : Inv M C P apart s) (hi : (s.core i).Holds)
    (hc : ∀ op k, s.core i ≠ .critical op k) : s.data = s.serial := by
  refine h.settled fun j op k e => ?_
  have hj : (s.core j).Holds := by
    rw [e]
    trivial
  obtain rfl := h.unique hi hj
  exact hc op k e

/-- A step of core `i` that leaves the data alone. -/
lemma Inv.move (h : Inv M C P apart s) {c : SpinlockT ι} {x : Core ω κ ο}
    (hf : ∀ j, j ≠ i → s.lock.Frame c j)
    (hm : LockMove s.lock.val c.val (s.core i) x)
    (hx : CoreInv M C { s with lock := c } i x)
    (hop : ∀ op, x.op? = some op → M.enabled s.serial op ∧
      ∀ j op', j ≠ i → (s.core j).op? = some op' → apart op op' ∧ apart op' op)
    (hset : (∀ op k, x ≠ .critical op k) → ∀ op k, s.core i ≠ .critical op k) :
    Inv M C P apart { s with lock := c, core := Function.update s.core i x } := by
  refine ⟨h.good, h.excl.owner_move hm, fun j => ?_, fun j op e => ?_, fun j k op op' hjk ej ek => ?_,
    fun hall => ?_⟩
  · by_cases hj : j = i
    · subst hj
      simp only [Function.update_self]
      cases x <;> exact hx
    · simp only [Function.update_of_ne hj]
      have hc := h.core j
      cases e : s.core j with
      | idle => trivial
      | locking op l =>
        rw [e] at hc
        exact hc.frame (hf j hj)
      | critical op k =>
        rw [e] at hc
        exact hc
      | unlocking o l =>
        rw [e] at hc
        exact hc
  · dsimp only at e
    by_cases hj : j = i
    · subst hj
      rw [Function.update_self] at e
      exact (hop op e).1
    · rw [Function.update_of_ne hj] at e
      exact h.enabled j op e
  · dsimp only at ej ek
    by_cases hj : j = i
    · subst hj
      rw [Function.update_self] at ej
      rw [Function.update_of_ne (Ne.symm hjk)] at ek
      exact ((hop op ej).2 k op' (Ne.symm hjk) ek).1
    · rw [Function.update_of_ne hj] at ej
      by_cases hk : k = i
      · subst hk
        rw [Function.update_self] at ek
        exact ((hop op' ek).2 j op hj ej).2
      · rw [Function.update_of_ne hk] at ek
        exact h.apart j k op op' hjk ej ek
  · dsimp only at hall
    refine h.settled fun j => ?_
    by_cases hj : j = i
    · subst hj
      have := hall j
      rw [Function.update_self] at this
      exact hset this
    · have := hall j
      rw [Function.update_of_ne hj] at this
      exact this

omit [DecidableEq ι] in
/-- While core `i` is in its critical section no other core is in one. -/
lemma Inv.alone (h : Inv M C P apart s) {op : ω} {k : κ} (hi : s.core i = .critical op k) (hj : j ≠ i)
    (op' : ω) (k' : κ) : s.core j ≠ .critical op' k' := by
  intro e
  refine hj (h.unique ?_ ?_)
  · rw [e]
    trivial
  · rw [hi]
    trivial

/-- The cores that are not in a critical section do not depend on the data. -/
lemma Inv.core_of_ne (h : Inv M C P apart s) {op : ω} {k : κ} (hi : s.core i = .critical op k)
    (x : Core ω κ ο) (d t : σ) (hj : j ≠ i) :
    CoreInv M C { s with core := Function.update s.core i x, data := d, serial := t } j
      (Function.update s.core i x j) := by
  rw [Function.update_of_ne hj]
  have hc := h.core j
  cases e : s.core j with
  | idle => trivial
  | locking op l =>
    rw [e] at hc
    exact hc
  | critical op k => exact absurd e (h.alone hi hj op k)
  | unlocking o l =>
    rw [e] at hc
    exact hc

/-- A step inside a critical section. -/
lemma Inv.work (h : Inv M C P apart s) {op : ω} {k k' : κ} {t : σ} (hi : s.core i = .critical op k)
    (hstep : C.step k s.data = .ok (.inl k', t)) :
    Inv M C P apart { s with core := Function.update s.core i (.critical op k'), data := t } := by
  have hop : ∀ j, (Function.update s.core i (.critical op k') j).op? = (s.core j).op? := by
    intro j
    by_cases hj : j = i
    · subst hj
      rw [Function.update_self, hi]
      rfl
    · rw [Function.update_of_ne hj]
  refine ⟨h.good, h.excl.owner_move (.keep rfl ?_), fun j => ?_, fun j op' e => ?_,
    fun j k op op' hjk ej ek => ?_, fun hall => ?_⟩
  · rw [hi]
    exact Iff.rfl
  · by_cases hj : j = i
    · subst hj
      have hc := h.core j
      rw [hi] at hc
      obtain ⟨o, t', hfin, hex⟩ := hc
      dsimp only
      rw [Function.update_self]
      refine ⟨o, t', ?_, hex⟩
      cases hfin with
      | done e =>
        rw [hstep] at e
        cases e
      | step e hfin =>
        rw [hstep] at e
        cases e
        exact hfin
    · exact h.core_of_ne hi _ t s.serial hj
  · exact h.enabled j op' ((hop j).symm.trans e)
  · exact h.apart j k op op' hjk ((hop j).symm.trans ej) ((hop k).symm.trans ek)
  · exact absurd (Function.update_self i _ s.core) (hall i op k')

/-- The end of a critical section: the operation is done as the machine does it. -/
lemma Inv.finish (hM : M.Sound P) (hA : Stable M P apart) (h : Inv M C P apart s) {op : ω} {k : κ}
    {o : ο} {t : σ} (hi : s.core i = .critical op k) (hstep : C.step k s.data = .ok (.inr o, t)) :
    M.enabled s.serial op ∧ M.exec s.serial op = .ok (o, t) ∧
      Inv M C P apart { s with
        core := Function.update s.core i (.unlocking o spinUnlockEntry), data := t, serial := t } := by
  have hen : M.enabled s.serial op := h.enabled i op (by rw [hi]; rfl)
  have hex : M.exec s.serial op = .ok (o, t) := by
    have hc := h.core i
    rw [hi] at hc
    obtain ⟨o', t', hfin, hex⟩ := hc
    cases hfin with
    | done e =>
      rw [hstep] at e
      cases e
      exact hex
    | step e _ =>
      rw [hstep] at e
      cases e
  have hop : ∀ j op', (Function.update s.core i (.unlocking o spinUnlockEntry) j).op? = some op' →
      j ≠ i ∧ (s.core j).op? = some op' := by
    intro j op' e
    by_cases hj : j = i
    · subst hj
      rw [Function.update_self] at e
      cases e
    · rw [Function.update_of_ne hj] at e
      exact ⟨hj, e⟩
  refine ⟨hen, hex, ?_, h.excl.owner_move (.keep rfl ?_), fun j => ?_, fun j op' e => ?_,
    fun j k op op' hjk ej ek => ?_, fun _ => rfl⟩
  · obtain ⟨o', t', e, hP⟩ := hM _ _ h.good hen
    rw [hex] at e
    cases e
    exact hP
  · rw [hi]
    exact iff_of_true rfl trivial
  · by_cases hj : j = i
    · subst hj
      dsimp only
      rw [Function.update_self]
      exact .inl rfl
    · exact h.core_of_ne hi _ t t hj
  · obtain ⟨hj, e⟩ := hop j op' e
    refine hA.keep _ op op' _ _ h.good hen (h.enabled j op' e) ?_ hex
    exact h.apart i j op op' (Ne.symm hj) (by rw [hi]; rfl) e
  · exact h.apart j k op op' hjk (hop j op ej).2 (hop k op' ek).2

/-- The status of the cores after one of them has moved. -/
lemma status_update (c : SpinlockT ι) (x : Core ω κ ο) (d t : σ) :
    Spin.status { lock := c, core := Function.update s.core i x, data := d, serial := t } =
      Function.update s.status i x.status := by
  funext j
  by_cases hj : j = i
  · subst hj
    simp [Spin.status]
  · simp [Spin.status, hj]

/-- A step that does not change how far the caller is. -/
lemma status_update_self {x : Core ω κ ο} (hx : x.status = (s.core i).status) (c : SpinlockT ι)
    (d t : σ) :
    Spin.status { lock := c, core := Function.update s.core i x, data := d, serial := t } =
      s.status := by
  rw [status_update, hx]
  exact Function.update_eq_self i s.status

/-! The steps of a core, one equation for each. -/

/-- A step in `spin_lock`. -/
lemma run_locking {op : ω} {l l' : Local .w} {c : SpinlockT ι} {ok : Bool}
    (hi : s.core i = .locking op l) (e : step spinLock i ok s.lock l = some (c, l')) :
    s.run C i ok =
      .ok (none, { s with lock := c, core := Function.update s.core i (.locking op l') }) := by
  simp only [Spin.run, hi, e]

/-- The step from `spin_lock` to the critical section. -/
lemma run_enter {op : ω} {l : Local .w} {ok : Bool}
    (hi : s.core i = .locking op l) (e : step spinLock i ok s.lock l = none) :
    s.run C i ok =
      .ok (none, { s with core := Function.update s.core i (.critical op (C.start op)) }) := by
  simp only [Spin.run, hi, e]

/-- A step in the critical section. -/
lemma run_work {op : ω} {k k' : κ} {t : σ} {ok : Bool}
    (hi : s.core i = .critical op k) (e : C.step k s.data = .ok (.inl k', t)) :
    s.run C i ok =
      .ok (none, { s with core := Function.update s.core i (.critical op k'), data := t }) := by
  simp only [Spin.run, hi, e]

/-- The last step of the critical section. -/
lemma run_finish {op : ω} {k : κ} {o : ο} {t : σ} {ok : Bool}
    (hi : s.core i = .critical op k) (e : C.step k s.data = .ok (.inr o, t)) :
    s.run C i ok = .ok (none, { s with
      core := Function.update s.core i (.unlocking o spinUnlockEntry), data := t, serial := t }) := by
  simp only [Spin.run, hi, e]

/-- A step in `spin_unlock`. -/
lemma run_unlocking {o : ο} {l l' : Local .w} {c : SpinlockT ι} {ok : Bool}
    (hi : s.core i = .unlocking o l) (e : step spinUnlock i ok s.lock l = some (c, l')) :
    s.run C i ok =
      .ok (none, { s with lock := c, core := Function.update s.core i (.unlocking o l') }) := by
  simp only [Spin.run, hi, e]

/-- The return from `spin_unlock`. -/
lemma run_return {o : ο} {l : Local .w} {ok : Bool}
    (hi : s.core i = .unlocking o l) (e : step spinUnlock i ok s.lock l = none) :
    s.run C i ok = .ok (some (.ret i o), { s with core := Function.update s.core i .idle }) := by
  simp only [Spin.run, hi, e]

omit [DecidableEq ι] in
/-- The code of the operation of a core that holds the lock. -/
lemma Inv.core_enter (h : Inv M C P apart s) (hM : M.Sound P) (hC : C.Implements M) {op : ω}
    {l : Local .w} (hi : s.core i = .locking op l) (hl : l.Holds) :
    CoreInv M C s i (.critical op (C.start op)) := by
  have hen : M.enabled s.serial op := h.enabled i op (by rw [hi]; rfl)
  obtain ⟨o, t, hex, -⟩ := hM _ _ h.good hen
  have hdata : s.data = s.serial := by
    refine h.settled_of_holds (i := i) ?_ fun op' k e => ?_
    · rw [hi]
      exact hl
    · rw [hi] at e
      cases e
  refine ⟨o, t, ?_, hex⟩
  rw [hdata]
  exact hC _ _ _ _ hen hex

/-- A step of a core that is at work: it returns, keeps the invariant, and what it shows to the callers is
a step of the machine used atomically. -/
lemma Inv.run (hM : M.Sound P) (hC : C.Implements M) (hA : Stable M P apart) (h : Inv M C P apart s)
    (i : ι) (ok : Bool) : ∃ e s', s.run C i ok = .ok (e, s') ∧ Inv M C P apart s' ∧
      ∀ d hist, Linear M d hist s.serial s.status →
        Linear M d (hist ++ e.toList) s'.serial s'.status := by
  have hci := h.core i
  have hop : ∀ x : Core ω κ ο, x.op? = (s.core i).op? → ∀ op, x.op? = some op →
      M.enabled s.serial op ∧
        ∀ j op', j ≠ i → (s.core j).op? = some op' → apart op op' ∧ apart op' op := by
    intro x hx op e
    rw [hx] at e
    refine ⟨h.enabled i op e, fun j op' hj e' => ?_⟩
    exact ⟨h.apart i j op op' (Ne.symm hj) e e', h.apart j i op' op hj e' e⟩
  cases hi : s.core i with
  | idle =>
    refine ⟨none, s, by rw [Spin.run, hi], h, fun d hist he => ?_⟩
    rw [Option.toList_none, List.append_nil]
    exact he
  | locking op l =>
    rw [hi] at hci
    rcases LockInv.step hci ok with ⟨hpc, e⟩ | ⟨c, l', e, hl', hm⟩
    · refine ⟨none, _, run_enter hi e, ?_, fun d hist he => ?_⟩
      · refine h.move (c := s.lock) (fun j _ => .refl _ j) (.keep rfl ?_)
          (h.core_enter hM hC hi (.inr (.inr hpc))) (hop _ (by rw [hi]; rfl)) fun hx => ?_
        · rw [hi]
          exact iff_of_true trivial (.inr (.inr hpc))
        · exact absurd rfl (hx op (C.start op))
      · rw [Option.toList_none, List.append_nil, status_update_self (by rw [hi]; rfl)]
        exact he
    · refine ⟨none, _, run_locking hi e, ?_, fun d hist he => ?_⟩
      · refine h.move (fun j hj => frame_step hj e) ?_ hl' (hop _ (by rw [hi]; rfl)) fun _ op k => ?_
        · rw [hi]
          rcases hm with ⟨hv, hh⟩ | ⟨h0, h1, -, hh⟩
          · exact .keep hv hh
          · exact .acquire h0 h1 hh
        · rw [hi]
          exact fun e => by cases e
      · rw [Option.toList_none, List.append_nil, status_update_self (by rw [hi]; rfl)]
        exact he
  | critical op k =>
    rw [hi] at hci
    obtain ⟨o, t, hfin, hex⟩ := hci
    cases hfin with
    | done e =>
      obtain ⟨hen, hex, hinv⟩ := h.finish hM hA hi e
      refine ⟨none, _, run_finish hi e, hinv, fun d hist he => ?_⟩
      rw [Option.toList_none, List.append_nil, status_update]
      refine Linear.effect he ?_ hen hex
      rw [Spin.status, hi]
      rfl
    | step e _ =>
      refine ⟨none, _, run_work hi e, h.work hi e, fun d hist he => ?_⟩
      rw [Option.toList_none, List.append_nil, status_update_self (by rw [hi]; rfl)]
      exact he
  | unlocking o l =>
    rw [hi] at hci
    obtain ⟨pc, reg, z⟩ := l
    obtain rfl | rfl : pc = 0 ∨ pc = 1 := hci
    · have e : step spinUnlock i ok s.lock ⟨0, reg, z⟩ = some (s.lock.store i 0, ⟨1, reg, z⟩) := rfl
      refine ⟨none, _, run_unlocking hi e, ?_, fun d hist he => ?_⟩
      · refine h.move (fun j hj => frame_step hj e) ?_ (.inr rfl) (hop _ (by rw [hi]; rfl))
          fun _ op k => ?_
        · rw [hi]
          exact .release rfl rfl (by simp [Core.Holds])
        · rw [hi]
          exact fun e => by cases e
      · rw [Option.toList_none, List.append_nil, status_update_self (by rw [hi]; rfl)]
        exact he
    · have e : step spinUnlock i ok s.lock ⟨1, reg, z⟩ = none := rfl
      refine ⟨some (.ret i o), _, run_return hi e, ?_, fun d hist he => ?_⟩
      · refine h.move (c := s.lock) (fun j _ => .refl _ j) (.keep rfl ?_) trivial
          (fun op e => by cases e) fun _ op k => ?_
        · rw [hi]
          exact iff_of_false id (by simp [Core.Holds])
        · rw [hi]
          exact fun e => by cases e
      · rw [Option.toList_some, status_update]
        refine Linear.ret he ?_
        rw [Spin.status, hi]
        rfl

/-- No step of the system faults, all keep the invariant, and the calls and returns are those of `M` used
atomically. -/
lemma machine_linearizes (hM : M.Sound P) (hC : C.Implements M) (hA : Stable M P apart) :
    Linearizes (machine M C apart) M (fun s : Spin ι σ ω κ ο => s.Inv M C P apart) Spin.serial
      Spin.status := by
  intro s a h hen
  cases a with
  | call i op =>
    obtain ⟨hi, hop, hap⟩ := hen
    refine ⟨_, _, rfl, ?_, fun d hist he => ?_⟩
    · refine h.move (c := s.lock) (fun j _ => .refl _ j) (.keep rfl ?_) (lockInv_entry s.lock i)
        (fun op' e => ?_) fun _ op k => ?_
      · rw [hi]
        exact iff_of_false spinLockEntry_not_holds id
      · cases e
        refine ⟨hop, fun j op' _ e' => ⟨hA.symm _ _ (hap j op' e'), hap j op' e'⟩⟩
      · rw [hi]
        exact fun e => by cases e
    · rw [Option.toList_some, status_update]
      refine Linear.call he ?_
      rw [Spin.status, hi]
      rfl
  | run i ok => exact h.run hM hC hA i ok
  | disturb i keep =>
    refine ⟨none, _, rfl, ⟨h.good, h.owner, fun j => ?_, h.enabled, h.apart, h.settled⟩,
      fun d hist he => ?_⟩
    · have hc := h.core j
      dsimp only
      cases e : s.core j with
      | idle => trivial
      | locking op l =>
        rw [e] at hc
        exact hc.frame (Cell.frame_disturb keep)
      | critical op k =>
        rw [e] at hc
        exact hc
      | unlocking o l =>
        rw [e] at hc
        exact hc
    · rw [Option.toList_none, List.append_nil]
      exact he

/-- The invariant holds in every reached state, and no step faults. -/
lemma machine_sound (hM : M.Sound P) (hC : C.Implements M) (hA : Stable M P apart) :
    Machine.Sound (machine M C apart) fun s : Spin ι σ ω κ ο => s.Inv M C P apart :=
  (machine_linearizes hM hC hA).sound

omit [DecidableEq ι] in
/-- The invariant holds at the start. -/
lemma start_inv {d : σ} (hd : P d) : Inv M C P apart (start d : Spin ι σ ω κ ο) := by
  refine ⟨hd, ⟨none, rfl, fun i => ?_⟩, fun i => trivial, fun i op e => ?_, fun i j op op' _ e => ?_,
    fun _ => rfl⟩
  · exact iff_of_false id (by simp)
  · cases e
  · cases e

/-- Whatever the interleaving, the calls behave as if each took effect at once, between its call and its
return; and when no critical section is open the data are those of the machine. -/
theorem spin_lock_linearizable (hM : M.Sound P) (hC : C.Implements M) (hA : Stable M P apart)
    {d : σ} (hd : P d) {ls os} (r : (machine M C apart).Run (start d) ls os s) :
    Linear M d os.reduceOption s.serial s.status ∧ P s.serial ∧
      ((∀ i op k, s.core i ≠ .critical op k) → s.data = s.serial) := by
  have h := (machine_sound hM hC hA).run r (start_inv hd)
  exact ⟨(machine_linearizes hM hC hA).run r (start_inv hd) .nil, h.good, h.settled⟩

/-- The counter never faults. -/
lemma counter_sound : counter.Sound fun _ => True :=
  fun n _ _ _ => ⟨n, n + 1, rfl, trivial⟩

/-- Reading and then writing is counting. -/
lemma counterCode_implements : counterCode.Implements counter := by
  intro n op o n' _ h
  cases h
  exact .step rfl (.done rfl)

/-- Calls of the counter are always allowed. -/
lemma counter_stable : Stable counter (fun _ => True) fun _ _ => True :=
  ⟨fun _ _ _ => trivial, fun _ _ _ _ _ _ _ _ _ _ => trivial⟩

/-- Two cores count, one of them in its critical section. -/
theorem spin_lock_linearizable_counter : ∃ s : Spin Bool ℕ Unit (Option ℕ) ℕ, ∃ ls os,
    (machine counter counterCode fun _ _ => True).Run (start 5) ls os s ∧
      Linear counter 5 os.reduceOption s.serial s.status := by
  obtain ⟨s, ls, os, r, -⟩ := counter_run
  refine ⟨s, ls, os, r, ?_⟩
  exact (spin_lock_linearizable counter_sound counterCode_implements counter_stable trivial r).1

end Spin

end KingdoKernel.Sync
