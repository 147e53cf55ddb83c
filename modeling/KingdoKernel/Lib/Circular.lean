import KingdoKernel.Lib.Machine

/-!
# Circular buffers and bounded queues

`Circular.Rep n cells read put q` says that the cells of a circular buffer of length `n` hold the queue
`q`: it starts at position `read`, wraps around, and `put` is the position after its last element. One
cell stays unused, so `read = put` means that the queue is empty (`Rep.read_eq_put`), and a queue is full
at length `n - 1`.

`Ledger` is the queue with its past: which elements have left it, in which order, and whether they were
delivered or dropped. `Ledger.machine` is a queue of bounded capacity that makes room by dropping its
oldest element; `Ledger.arrived_eq` says that nothing else is lost, nothing is delivered twice and
nothing overtakes.
-/

namespace KingdoKernel

namespace Circular

variable {α : Type*} {n read put : ℕ} {cells : ℕ → α} {q : List α} {x : α}

/-- The next position. -/
def succ (n i : ℕ) : ℕ := if i + 1 = n then 0 else i + 1

/-- The next position, by a remainder. -/
lemma succ_eq_mod {i : ℕ} (h : i < n) : succ n i = (i + 1) % n := by
  rw [succ]
  split_ifs with e
  · rw [e, Nat.mod_self]
  · rw [Nat.mod_eq_of_lt (by omega)]

/-- Positions less than a round apart are different. -/
lemma add_mod_ne {i j : ℕ} (hij : i < j) (hj : j < n) : (read + i) % n ≠ (read + j) % n := by
  intro e
  have hd : n ∣ (read + j) - (read + i) := (Nat.modEq_iff_dvd' (by omega)).1 e
  have := Nat.le_of_dvd (by omega) hd
  omega

/-- The `k` cells from position `read` on. -/
def window (n : ℕ) (cells : ℕ → α) (read k : ℕ) : List α :=
  (List.range k).map fun i => cells ((read + i) % n)

/-- The length of a window. -/
@[simp] lemma length_window (n : ℕ) (cells : ℕ → α) (read k : ℕ) :
    (window n cells read k).length = k := by
  simp [window]

/-- A window with one more cell at its end. -/
lemma window_succ (n : ℕ) (cells : ℕ → α) (read k : ℕ) :
    window n cells read (k + 1) = window n cells read k ++ [cells ((read + k) % n)] := by
  simp [window, List.range_succ]

/-- A window with one more cell at its front. -/
lemma window_cons (n : ℕ) (cells : ℕ → α) (read k : ℕ) :
    window n cells read (k + 1) = cells (read % n) :: window n cells ((read + 1) % n) k := by
  simp only [window, List.range_succ_eq_map, List.map_cons, List.map_map, Nat.add_zero]
  congr 1
  refine List.map_congr_left fun i _ => ?_
  rw [Function.comp_apply, Nat.mod_add_mod]
  congr 2
  omega

/-- A cell outside the window does not matter. -/
lemma window_update {p k : ℕ} (h : ∀ i < k, (read + i) % n ≠ p) :
    window n (Function.update cells p x) read k = window n cells read k := by
  refine List.map_congr_left fun i hi => ?_
  rw [Function.update_of_ne (h i (List.mem_range.1 hi))]

/-- The cells hold the queue `q`. -/
structure Rep (n : ℕ) (cells : ℕ → α) (read put : ℕ) (q : List α) : Prop where
  read_lt : read < n
  room : q.length < n
  put_eq : put = (read + q.length) % n
  cells_eq : window n cells read q.length = q

namespace Rep

/-- Equal positions are an empty queue. -/
lemma nil (cells : ℕ → α) (h : read < n) : Rep n cells read read [] :=
  ⟨h, by simp only [List.length_nil]; omega, (Nat.mod_eq_of_lt h).symm, rfl⟩

/-- The position of the writer is in range. -/
lemma put_lt (h : Rep n cells read put q) : put < n := by
  rw [h.put_eq]
  exact Nat.mod_lt _ (lt_of_le_of_lt (Nat.zero_le _) h.read_lt)

/-- The positions coincide exactly when the queue is empty. -/
lemma read_eq_put (h : Rep n cells read put q) : read = put ↔ q = [] := by
  constructor
  · intro e
    by_contra hne
    have hpos : 0 < q.length := List.length_pos_iff.2 hne
    have hmod : (read + 0) % n = (read + q.length) % n := by
      rw [Nat.add_zero, Nat.mod_eq_of_lt h.read_lt, ← h.put_eq]
      exact e
    exact add_mod_ne hpos h.room hmod
  · rintro rfl
    rw [h.put_eq, List.length_nil, Nat.add_zero, Nat.mod_eq_of_lt h.read_lt]

/-- The position after `put` is `read` exactly when the queue is full. -/
lemma read_eq_succ_put (h : Rep n cells read put q) : read = succ n put ↔ q.length + 1 = n := by
  have hs : succ n put = (read + (q.length + 1)) % n := by
    rw [succ_eq_mod h.put_lt, h.put_eq, Nat.mod_add_mod, Nat.add_assoc]
  rw [hs]
  constructor
  · intro e
    by_contra hne
    have hlt : q.length + 1 < n := by
      have := h.room
      omega
    have hmod : (read + 0) % n = (read + (q.length + 1)) % n := by
      rw [Nat.add_zero, Nat.mod_eq_of_lt h.read_lt]
      exact e
    exact add_mod_ne (Nat.succ_pos q.length) hlt hmod
  · intro e
    rw [e, Nat.add_mod_right, Nat.mod_eq_of_lt h.read_lt]

/-- The window after writing one more cell. -/
lemma window_snoc (h : Rep n cells read put q) :
    window n (Function.update cells put x) read (q.length + 1) = q ++ [x] := by
  have hout : ∀ i < q.length, (read + i) % n ≠ put := by
    intro i hi
    rw [h.put_eq]
    exact add_mod_ne hi h.room
  rw [window_succ, window_update hout, h.cells_eq, ← h.put_eq, Function.update_self]

/-- Adding an element to a queue that is not full. -/
lemma push (h : Rep n cells read put q) (hlen : q.length + 1 < n) :
    Rep n (Function.update cells put x) read (succ n put) (q ++ [x]) := by
  have hl : (q ++ [x]).length = q.length + 1 := by simp
  refine ⟨h.read_lt, by omega, ?_, ?_⟩
  · rw [succ_eq_mod h.put_lt, h.put_eq, Nat.mod_add_mod, hl, Nat.add_assoc]
  · rw [hl]
    exact h.window_snoc

/-- Adding an element to a full queue, the reader making room. -/
lemma push_full {y : α} (h : Rep n cells read put (y :: q)) (hlen : q.length + 2 = n) :
    Rep n (Function.update cells put x) (succ n read) (succ n put) (q ++ [x]) := by
  have hl : (q ++ [x]).length = q.length + 1 := by simp
  have hw := h.window_snoc (x := x)
  rw [List.length_cons, window_cons] at hw
  injection hw with _ hw
  rw [succ_eq_mod h.read_lt]
  refine ⟨Nat.mod_lt _ (by omega), by omega, ?_, ?_⟩
  · rw [succ_eq_mod h.put_lt, h.put_eq, Nat.mod_add_mod, Nat.mod_add_mod, hl, List.length_cons]
    congr 1
    omega
  · rw [hl]
    exact hw

/-- Removing the oldest element. -/
lemma pop (h : Rep n cells read put (x :: q)) :
    cells read = x ∧ Rep n cells (succ n read) put q := by
  have hw := h.cells_eq
  rw [List.length_cons, window_cons, Nat.mod_eq_of_lt h.read_lt] at hw
  injection hw with hx hw
  have hroom := h.room
  rw [List.length_cons] at hroom
  rw [succ_eq_mod h.read_lt]
  refine ⟨hx, Nat.mod_lt _ (by omega), by omega, ?_, hw⟩
  rw [h.put_eq, Nat.mod_add_mod, List.length_cons]
  congr 1
  omega

end Rep

end Circular

/-! ## A bounded queue and its past -/

/-- What happens to an element that leaves the queue. -/
inductive Fate where
  | delivered
  | dropped
deriving DecidableEq, Repr

/-- A queue with the elements that have left it, in the order in which they left. -/
structure Ledger (α : Type*) where
  past : List (α × Fate)
  queue : List α

namespace Ledger

variable {α : Type*}

/-- The calls of a queue: an element arrives, or the oldest one is asked for. -/
inductive Op (α : Type*) where
  | put (x : α)
  | get

/-- An element arrives; a full queue drops its oldest element. -/
def put (capacity : ℕ) (l : Ledger α) (x : α) : Ledger α :=
  match l.queue with
  | [] => ⟨l.past, [x]⟩
  | y :: q =>
    if (y :: q).length < capacity then ⟨l.past, (y :: q) ++ [x]⟩
    else ⟨l.past ++ [(y, .dropped)], q ++ [x]⟩

/-- The oldest element is asked for. -/
def get (l : Ledger α) : Option α × Ledger α :=
  match l.queue with
  | [] => (none, l)
  | y :: q => (some y, ⟨l.past ++ [(y, .delivered)], q⟩)

/-- The queue of bounded capacity. -/
def machine (ε : Type*) (capacity : ℕ) : Machine ε (Ledger α) (Op α) (Option α) where
  enabled _ _ := True
  exec l op :=
    match op with
    | .put x => .ok (none, l.put capacity x)
    | .get => .ok l.get

/-- The elements that have arrived in the course of some calls. -/
def arrivals (ops : List (Op α)) : List α :=
  ops.filterMap fun
    | .put x => some x
    | .get => none

/-- The elements that have left the queue with a given fate, in order. -/
def withFate (l : Ledger α) (f : Fate) : List α := (l.past.filter fun x => x.2 = f).map Prod.fst

/-- The elements that have been in the queue, in the order of their arrival. -/
def seen (l : Ledger α) : List α := l.past.map Prod.fst ++ l.queue

/-- What has been seen after an arrival. -/
lemma seen_put (capacity : ℕ) (l : Ledger α) (x : α) : (l.put capacity x).seen = l.seen ++ [x] := by
  obtain ⟨past, queue⟩ := l
  cases queue with
  | nil => simp [put, seen]
  | cons y q =>
    simp only [put]
    split_ifs
    · simp [seen]
    · simp [seen]

/-- A request does not change what has been seen. -/
lemma seen_get (l : Ledger α) : l.get.2.seen = l.seen := by
  obtain ⟨past, queue⟩ := l
  cases queue with
  | nil => rfl
  | cons y q => simp [get, seen]

/-- An arrival delivers nothing. -/
lemma withFate_put (capacity : ℕ) (l : Ledger α) (x : α) :
    (l.put capacity x).withFate .delivered = l.withFate .delivered := by
  obtain ⟨past, queue⟩ := l
  cases queue with
  | nil => rfl
  | cons y q =>
    simp only [put]
    split_ifs
    · rfl
    · simp [withFate]

/-- A request delivers what it returns. -/
lemma withFate_get (l : Ledger α) :
    l.get.2.withFate .delivered = l.withFate .delivered ++ l.get.1.toList := by
  obtain ⟨past, queue⟩ := l
  cases queue with
  | nil => simp [get]
  | cons y q => simp [get, withFate]

/-- The past and the queue account for the arrivals in order, and what was returned is what the past
says was delivered. -/
lemma arrived_eq {ε : Type*} {capacity : ℕ} {l l' : Ledger α} {ops : List (Op α)}
    {os : List (Option α)} (r : (machine ε capacity).Run l ops os l') :
    l'.seen = l.seen ++ arrivals ops ∧
      l'.withFate .delivered = l.withFate .delivered ++ os.reduceOption := by
  induction r with
  | nil => simp [arrivals]
  | @cons l l₁ l' op o ops os _ hex _ ih =>
    cases op with
    | put x =>
      cases hex
      rw [seen_put, withFate_put] at ih
      refine ⟨?_, ?_⟩
      · rw [ih.1]
        simp [arrivals]
      · rw [ih.2]
        rfl
    | get =>
      have e : l.get = (o, l₁) := by
        injection hex
      have hs := l.seen_get
      have hd := l.withFate_get
      rw [e] at hs hd
      rw [hs, hd] at ih
      refine ⟨ih.1, ?_⟩
      rw [ih.2, List.append_assoc]
      cases o <;> rfl

end Ledger

end KingdoKernel
