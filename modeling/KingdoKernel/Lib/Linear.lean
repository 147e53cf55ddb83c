import KingdoKernel.Lib.Machine

/-!
# Linearizable histories

The callers `ι` of a shared object issue operations and get results back, in any order; the history of the
object is the sequence of their `Event`s. `Linear M s₀ h s p` says that `h` is a history of the machine `M`
used atomically: each operation takes effect in one step of `M`, at a moment between its call and its
return, and returns the output of that step. `s` is the state the effects leave and `p` says how far each
caller is.

* `Linear.sound`: an invariant of the machine holds after every such history.
* `Linear.serial`: the effects form a run of the machine that has the calls and the results of every
  caller, in the caller's own order.
* `Linear.perm`: when no call is under way, the run consists of the calls of the history.
* `Linearizes.run`: a system each of whose steps extends such a history has only such histories.
-/

namespace KingdoKernel

/-- What the callers of an object see. -/
inductive Event (ι ω ο : Type*) where
  | call (i : ι) (op : ω)
  | ret (i : ι) (o : ο)
deriving DecidableEq, Repr

/-- How far a caller is with its operation. -/
inductive Status (ω ο : Type*) where
  | idle
  | pending (op : ω)
  | done (o : ο)
deriving DecidableEq, Repr

variable {ε σ ι ω ο : Type*} [DecidableEq ι]

/-- The histories of a machine used atomically. -/
inductive Linear (M : Machine ε σ ω ο) (s₀ : σ) :
    List (Event ι ω ο) → σ → (ι → Status ω ο) → Prop where
  | nil :
    Linear M s₀ [] s₀ fun _ => .idle
  | call {h s p i op} :
    Linear M s₀ h s p →
    p i = .idle →
    Linear M s₀ (h ++ [.call i op]) s (Function.update p i (.pending op))
  | effect {h s p i op o s'} :
    Linear M s₀ h s p →
    p i = .pending op →
    M.enabled s op →
    M.exec s op = .ok (o, s') →
    Linear M s₀ h s' (Function.update p i (.done o))
  | ret {h s p i o} :
    Linear M s₀ h s p →
    p i = .done o →
    Linear M s₀ (h ++ [.ret i o]) s (Function.update p i .idle)

/-- The operations issued, with their callers. -/
def calls (h : List (Event ι ω ο)) : List (ι × ω) :=
  h.filterMap fun
    | .call i op => some (i, op)
    | .ret _ _ => none

/-- The results returned, with their callers. -/
def rets (h : List (Event ι ω ο)) : List (ι × ο) :=
  h.filterMap fun
    | .call _ _ => none
    | .ret i o => some (i, o)

/-- The part of a list that belongs to a caller. -/
def own {β : Type*} (i : ι) (l : List (ι × β)) : List β :=
  l.filterMap fun x => if x.1 = i then some x.2 else none

section Own

variable {β γ : Type*} {i : ι}

/-- The part of one thread in a sequence of two. -/
@[simp] lemma own_append (l l' : List (ι × β)) : own i (l ++ l') = own i l ++ own i l' :=
  List.filterMap_append

/-- The part of one thread in nothing. -/
@[simp] lemma own_nil : own i ([] : List (ι × β)) = [] := rfl

/-- The part of one thread in one element. -/
@[simp] lemma own_single (j : ι) (b : β) : own i [(j, b)] = if j = i then [b] else [] := by
  by_cases e : j = i
  · simp [own, e]
  · simp [own, e]

/-- The part of one thread, elementwise. -/
lemma own_map (f : β → γ) (l : List (ι × β)) :
    own i (l.map fun x => (x.1, f x.2)) = (own i l).map f := by
  induction l with
  | nil => rfl
  | cons x l ih =>
    obtain ⟨j, b⟩ := x
    by_cases e : j = i
    · simp_all [own]
    · simp_all [own]

/-- An element occurs as often as in the part of its thread. -/
lemma count_own [DecidableEq β] (l : List (ι × β)) (i : ι) (b : β) :
    l.count (i, b) = (own i l).count b := by
  induction l with
  | nil => rfl
  | cons x l ih =>
    obtain ⟨j, a⟩ := x
    rw [← List.singleton_append, own_append, List.count_append, List.count_append, ih, own_single]
    by_cases e : j = i
    · subst e
      simp [List.count_singleton, beq_iff_eq]
    · simp [e]

/-- Subpermutations, elementwise. -/
lemma subperm_map (f : β → γ) {l l' : List β} (h : l.Subperm l') : (l.map f).Subperm (l'.map f) := by
  obtain ⟨m, hp, hs⟩ := h
  exact ⟨m.map f, hp.map f, hs.map f⟩

/-- A list in which every caller has at least what it has in another contains that one. -/
lemma subperm_of_own {l l' : List (ι × β)} (h : ∀ i, own i l <+: own i l') : l.Subperm l' := by
  classical
  have hc (l : List (ι × β)) (i : ι) (b : β) :
      @List.count _ instBEqOfDecidableEq (i, b) l = (own i l).count b := by
    rw [← count_own l i b]
    congr 1
    exact lawful_beq_subsingleton _ _
  refine List.subperm_iff_count.2 fun ⟨i, b⟩ => ?_
  rw [hc, hc]
  exact (h i).sublist.count_le b

/-- Lists in which every caller has the same part are permutations of one another. -/
lemma perm_of_own {l l' : List (ι × β)} (h : ∀ i, own i l = own i l') : l.Perm l' := by
  classical
  refine List.perm_iff_count.2 fun ⟨i, b⟩ => ?_
  rw [count_own, count_own, h i]

end Own

namespace Status

/-- The operation that has not taken effect. -/
def waiting : Status ω ο → List ω
  | idle => []
  | pending op => [op]
  | done _ => []

/-- The result that has not been returned. -/
def result : Status ω ο → List ο
  | idle => []
  | pending _ => []
  | done o => [o]

end Status

namespace Linear

variable {M : Machine ε σ ω ο} {s₀ s : σ} {h : List (Event ι ω ο)} {p : ι → Status ω ο}

/-- Invariants of the machine hold after every history. -/
lemma sound {P : σ → Prop} (hM : M.Sound P) (H : Linear M s₀ h s p) (h₀ : P s₀) : P s := by
  induction H with
  | nil => exact h₀
  | call _ _ ih => exact ih
  | effect _ _ hen hex ih =>
    obtain ⟨o, t, e, hP⟩ := hM _ _ ih hen
    rw [hex] at e
    cases e
    exact hP
  | ret _ _ ih => exact ih

/-- The operations take effect one after the other, each caller's in the order of its calls and with the
results it gets. -/
lemma serial (H : Linear M s₀ h s p) : ∃ ts : List (ι × ω × ο),
    M.Run s₀ (ts.map fun t => t.2.1) (ts.map fun t => t.2.2) s ∧
    ∀ i, own i (calls h) = (own i ts).map Prod.fst ++ (p i).waiting ∧
      (own i ts).map Prod.snd = own i (rets h) ++ (p i).result := by
  induction H with
  | nil => exact ⟨[], .nil, fun i => ⟨rfl, rfl⟩⟩
  | @call h s p i op _ hp ih =>
    obtain ⟨ts, r, hts⟩ := ih
    refine ⟨ts, r, fun j => ?_⟩
    obtain ⟨hc, hr⟩ := hts j
    by_cases e : i = j
    · subst e
      simp_all [calls, rets, Status.waiting, Status.result]
    · simp_all [calls, rets, Function.update_of_ne (Ne.symm e)]
  | @effect h s p i op o s' _ hp hen hex ih =>
    obtain ⟨ts, r, hts⟩ := ih
    refine ⟨ts ++ [(i, op, o)], ?_, fun j => ?_⟩
    · rw [List.map_append, List.map_append]
      exact r.append (.cons hen hex .nil)
    · obtain ⟨hc, hr⟩ := hts j
      by_cases e : i = j
      · subst e
        simp_all [Status.waiting, Status.result]
      · simp_all [Function.update_of_ne (Ne.symm e)]
  | @ret h s p i o _ hp ih =>
    obtain ⟨ts, r, hts⟩ := ih
    refine ⟨ts, r, fun j => ?_⟩
    obtain ⟨hc, hr⟩ := hts j
    by_cases e : i = j
    · subst e
      simp_all [calls, rets, Status.waiting, Status.result]
    · simp_all [calls, rets, Function.update_of_ne (Ne.symm e)]

/-- With no call under way, the calls of the history are what has been executed. -/
lemma perm (H : Linear M s₀ h s p) (hp : ∀ i, p i = .idle) :
    ∃ ops os, M.Run s₀ ops os s ∧ ops.Perm ((calls h).map Prod.snd) := by
  obtain ⟨ts, r, hts⟩ := H.serial
  refine ⟨_, _, r, ?_⟩
  have e : (ts.map fun t => (t.1, t.2.1)).Perm (calls h) := by
    refine perm_of_own fun i => ?_
    rw [(hts i).1, hp i, Status.waiting, List.append_nil, own_map]
  have e' := e.map Prod.snd
  rw [List.map_map] at e'
  exact e'

/-- What has been returned is among what has been done, and that among what has been called. -/
lemma subperm (H : Linear M s₀ h s p) : ∃ ops os, M.Run s₀ ops os s ∧
    ((rets h).map Prod.snd).Subperm os ∧ ops.Subperm ((calls h).map Prod.snd) := by
  obtain ⟨ts, r, hts⟩ := H.serial
  have hr : (rets h).Subperm (ts.map fun t => (t.1, t.2.2)) := by
    refine subperm_of_own fun i => ?_
    rw [own_map Prod.snd, (hts i).2]
    exact List.prefix_append _ _
  have hc : (ts.map fun t => (t.1, t.2.1)).Subperm (calls h) := by
    refine subperm_of_own fun i => ?_
    rw [own_map Prod.fst, (hts i).1]
    exact List.prefix_append _ _
  refine ⟨_, _, r, ?_, ?_⟩
  · have e := subperm_map Prod.snd hr
    rw [List.map_map] at e
    exact e
  · have e := subperm_map Prod.snd hc
    rw [List.map_map] at e
    exact e

end Linear

/-! ## Systems that use a machine atomically -/

section System

variable {ε' τ α : Type*}

/-- In states with `I`, the steps of the system `N` return and keep `I`, and what they show to the callers
goes on as a history of `M`; `f` is the state of `M` that a state of `N` stands for and `g` says how far the
callers are in it. -/
def Linearizes (N : Machine ε' τ α (Option (Event ι ω ο))) (M : Machine ε σ ω ο) (I : τ → Prop)
    (f : τ → σ) (g : τ → ι → Status ω ο) : Prop :=
  ∀ s a, I s → N.enabled s a → ∃ e s', N.exec s a = .ok (e, s') ∧ I s' ∧
    ∀ s₀ h, Linear M s₀ h (f s) (g s) → Linear M s₀ (h ++ e.toList) (f s') (g s')

variable {N : Machine ε' τ α (Option (Event ι ω ο))} {M : Machine ε σ ω ο} {I : τ → Prop} {f : τ → σ}
  {g : τ → ι → Status ω ο}

/-- A machine that linearizes keeps its invariant. -/
lemma Linearizes.sound (hN : Linearizes N M I f g) : N.Sound I := by
  intro s a hs hen
  obtain ⟨e, s', hex, hI, -⟩ := hN s a hs hen
  exact ⟨e, s', hex, hI⟩

/-- The history of a run of the system is one of the machine used atomically. -/
lemma Linearizes.run (hN : Linearizes N M I f g) {s s' : τ} {as os} (r : N.Run s as os s') (hs : I s)
    {s₀ : σ} {h : List (Event ι ω ο)} (H : Linear M s₀ h (f s) (g s)) :
    Linear M s₀ (h ++ os.reduceOption) (f s') (g s') := by
  induction r generalizing h with
  | nil =>
    rw [List.reduceOption_nil, List.append_nil]
    exact H
  | @cons s s1 s' a o as os hen hex _ ih =>
    obtain ⟨e, t, hex', hI, hstep⟩ := hN s a hs hen
    rw [hex] at hex'
    cases hex'
    have H' := ih hI (hstep s₀ h H)
    cases o with
    | none =>
      rw [Option.toList_none, List.append_nil] at H'
      rw [List.reduceOption_cons_of_none]
      exact H'
    | some o =>
      rw [Option.toList_some, List.append_assoc, List.singleton_append] at H'
      rw [List.reduceOption_cons_of_some]
      exact H'

end System

end KingdoKernel
