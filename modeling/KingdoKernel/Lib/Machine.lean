import Mathlib

/-!
# Machines that may fault

A `Machine` is a deterministic state machine driven by its environment: an operation may be issued
only in the states in which it is `enabled`, and executing it either returns an output and a next
state or faults. `Machine.Run` is a finite run; `Machine.Sound P` says that in a state satisfying `P`
no enabled operation faults and all of them keep `P`, and `Sound.run` carries this over whole runs.
`Machine.Simulates` relates a machine to a second one that takes the same steps with the same outputs;
`Simulates.run` is the corresponding statement about runs. `Machine.restrict` allows only the steps that
meet a condition, and `Run.restrict_iff` counts the runs all of whose steps do.
-/

namespace KingdoKernel

section Except

universe u v

variable {ε : Type u} {α β : Type v}

/-- A step that succeeds. -/
@[simp] lemma ok_bind (a : α) (f : α → Except ε β) : (Except.ok a >>= f) = f a := rfl

/-- A step that faults. -/
@[simp] lemma error_bind (e : ε) (f : α → Except ε β) :
    ((Except.error e : Except ε α) >>= f) = .error e := rfl

/-- A result without a step. -/
@[simp] lemma pure_eq_ok (a : α) : (pure a : Except ε α) = .ok a := rfl

/-- A sequence of two computations returns when both do. -/
lemma bind_eq_ok {x : Except ε α} {f : α → Except ε β} {b : β} :
    (x >>= f) = .ok b ↔ ∃ a, x = .ok a ∧ f a = .ok b := by
  cases x with
  | error e => simp
  | ok a => simp

end Except

/-- A deterministic machine with faults. -/
structure Machine (ε σ ι ο : Type*) where
  enabled : σ → ι → Prop
  exec : σ → ι → Except ε (ο × σ)

namespace Machine

variable {ε σ τ ι ο : Type*}

/-- A finite run: the operations issued and the outputs returned. -/
inductive Run (M : Machine ε σ ι ο) : σ → List ι → List ο → σ → Prop where
  | nil {s} :
    Run M s [] [] s
  | cons {s s' s'' op o ops os} :
    M.enabled s op →
    M.exec s op = .ok (o, s') →
    Run M s' ops os s'' →
    Run M s (op :: ops) (o :: os) s''

/-- From a state satisfying `P`, enabled operations return and keep `P`. -/
def Sound (M : Machine ε σ ι ο) (P : σ → Prop) : Prop :=
  ∀ s op, P s → M.enabled s op → ∃ o s', M.exec s op = .ok (o, s') ∧ P s'

/-- The invariant rule: `P` holds along every run. -/
lemma Sound.run {M : Machine ε σ ι ο} {P : σ → Prop} (h : M.Sound P) {s s' : σ} {ops os}
    (r : M.Run s ops os s') (hs : P s) : P s' := by
  induction r with
  | nil => exact hs
  | cons hen hex _ ih =>
    obtain ⟨o, t, ht, hP⟩ := h _ _ hs hen
    rw [hex] at ht
    cases ht
    exact ih hP

/-- Runs compose. -/
lemma Run.append {M : Machine ε σ ι ο} {s s' s'' : σ} {ops os ops' os'}
    (r : M.Run s ops os s') (r' : M.Run s' ops' os' s'') :
    M.Run s (ops ++ ops') (os ++ os') s'' := by
  induction r with
  | nil => exact r'
  | cons hen hex _ ih => exact .cons hen hex (ih r')

/-- A run of a concatenation passes through the end of its first part. -/
lemma Run.of_append {M : Machine ε σ ι ο} {s s'' : σ} {ops os ops' os'}
    (hlen : ops.length = os.length) (r : M.Run s (ops ++ ops') (os ++ os') s'') :
    ∃ s', M.Run s ops os s' ∧ M.Run s' ops' os' s'' := by
  induction ops generalizing s os with
  | nil =>
    cases List.length_eq_zero_iff.1 hlen.symm
    exact ⟨s, .nil, r⟩
  | cons op ops ih =>
    cases os with
    | nil => cases hlen
    | cons o os =>
      cases r with
      | cons hen hex r =>
        obtain ⟨s', r₁, r₂⟩ := ih (Nat.succ.inj hlen) r
        exact ⟨s', .cons hen hex r₁, r₂⟩

/-- The outputs and the last state are determined by the operations. -/
lemma Run.det {M : Machine ε σ ι ο} {s s' s'' : σ} {ops os os'}
    (r : M.Run s ops os s') (r' : M.Run s ops os' s'') : os = os' ∧ s' = s'' := by
  induction r generalizing os' with
  | nil =>
    cases r'
    exact ⟨rfl, rfl⟩
  | cons _ hex _ ih =>
    cases r' with
    | cons _ hex' r' =>
      rw [hex] at hex'
      cases hex'
      obtain ⟨rfl, rfl⟩ := ih r'
      exact ⟨rfl, rfl⟩

/-- In states related by `R`, enabled operations of `M` return, and `M'` takes the same step. -/
def Simulates (M : Machine ε σ ι ο) (M' : Machine ε τ ι ο) (R : σ → τ → Prop) : Prop :=
  ∀ s t op, R s t → M.enabled s op →
    ∃ o s' t', M.exec s op = .ok (o, s') ∧ M'.enabled t op ∧ M'.exec t op = .ok (o, t') ∧ R s' t'

/-- Every run of `M` is one of `M'`. -/
lemma Simulates.run {M : Machine ε σ ι ο} {M' : Machine ε τ ι ο} {R : σ → τ → Prop}
    (h : M.Simulates M' R) {s s' : σ} {t : τ} {ops os} (r : M.Run s ops os s') (hR : R s t) :
    ∃ t', M'.Run t ops os t' ∧ R s' t' := by
  induction r generalizing t with
  | nil => exact ⟨t, .nil, hR⟩
  | cons hen hex _ ih =>
    obtain ⟨o, s1, t1, e, hen', e', hR'⟩ := h _ _ _ hR hen
    rw [hex] at e
    cases e
    obtain ⟨t', r', hR''⟩ := ih hR'
    exact ⟨t', .cons hen' e' r', hR''⟩

/-- The machine whose operations stand for those of `M`. -/
def comap {κ : Type*} (M : Machine ε σ ι ο) (f : κ → ι) : Machine ε σ κ ο where
  enabled s op := M.enabled s (f op)
  exec s op := M.exec s (f op)

/-- Its runs are those of `M`. -/
lemma Run.of_comap {κ : Type*} {M : Machine ε σ ι ο} {f : κ → ι} {s s' : σ} {ops os}
    (r : (M.comap f).Run s ops os s') : M.Run s (ops.map f) os s' := by
  induction r with
  | nil => exact .nil
  | cons hen hex _ ih => exact .cons hen hex ih

/-- The machine that takes only steps with the property `P`. -/
def restrict (M : Machine ε σ ι ο) (P : σ → ι → Prop) : Machine ε σ ι ο where
  enabled s op := M.enabled s op ∧ P s op
  exec := M.exec

/-- A run of the restricted machine is one of the machine. -/
lemma Run.of_restrict {M : Machine ε σ ι ο} {P : σ → ι → Prop} {s s' : σ} {ops os}
    (r : (M.restrict P).Run s ops os s') : M.Run s ops os s' := by
  induction r with
  | nil => exact .nil
  | cons hen hex _ ih => exact .cons hen.1 hex ih

/-- A quantity that is zero at the start, never goes back, and grows exactly in the steps without `P`:
it is zero at the end of the runs all of whose steps have `P`. -/
lemma Run.restrict_iff {M : Machine ε σ ι ο} {P : σ → ι → Prop} {I : σ → Prop} (f : σ → ℕ)
    (hI : M.Sound I)
    (hstep : ∀ s op o s', I s → M.enabled s op → M.exec s op = .ok (o, s') →
      f s ≤ f s' ∧ (f s' = f s ↔ P s op))
    {s s' : σ} {ops os} (r : M.Run s ops os s') (hs : I s) :
    f s ≤ f s' ∧ (f s' = f s ↔ (M.restrict P).Run s ops os s') := by
  induction r with
  | nil => exact ⟨le_rfl, fun _ => .nil, fun _ => rfl⟩
  | @cons s s1 s' op o ops os hen hex r ih =>
    obtain ⟨o', s2, e, hI'⟩ := hI _ _ hs hen
    rw [hex] at e
    cases e
    obtain ⟨hle, hiff⟩ := hstep _ _ _ _ hs hen hex
    obtain ⟨hle', hiff'⟩ := ih hI'
    refine ⟨hle.trans hle', fun e => ?_, fun r' => ?_⟩
    · exact .cons ⟨hen, hiff.1 (by omega)⟩ hex (hiff'.1 (by omega))
    · cases r' with
      | cons hen' hex' r' =>
        have e1 : M.exec s op = .ok (o, s1) := hex
        have e2 : M.exec s op = .ok _ := hex'
        rw [e1] at e2
        cases e2
        have h1 := hiff.2 hen'.2
        have h2 := hiff'.2 r'
        omega

end Machine

end KingdoKernel
