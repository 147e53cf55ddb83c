import Mathlib

/-!
# Exclusive access to a shared cell

A memory cell that several cores read and write with load-exclusive and store-exclusive. Each core has a
monitor for the cell and an event register: a load-exclusive closes the monitor of its core, a store opens
the monitors of the other cores, and a core whose monitor is opened by someone else finds its event
register set. `Cell.storeEx` takes effect only while the monitor is closed; `Cell.wfe` goes on only when
the event register is set, and clears it.

What a core may rely on while the others run is the relation `Cell.Frame`: `frame_store`,
`frame_storeEx`, … show it for the operations of another core, and `Frame.trans` composes it.
-/

namespace KingdoKernel

/-- A cell with the monitors and the event registers of the cores `ι`. -/
@[ext] structure Cell (ι α : Type*) where
  val : α
  mon : ι → Bool
  event : ι → Bool

namespace Cell

variable {ι α : Type*} [DecidableEq ι] {c c' c'' : Cell ι α} {i j : ι}

/-- Load-exclusive: the monitor of the core is closed. -/
def loadEx (c : Cell ι α) (i : ι) : α × Cell ι α :=
  (c.val, { c with mon := Function.update c.mon i true })

/-- A store by core `i`: the monitors of the other cores are opened, which sends them an event. -/
def store (c : Cell ι α) (i : ι) (v : α) : Cell ι α where
  val := v
  mon j := j == i && c.mon j
  event j := c.event j || (j != i && c.mon j)

/-- The monitor of a core is left open. -/
def clearEx (c : Cell ι α) (i : ι) : Cell ι α :=
  { c with mon := Function.update c.mon i false }

/-- Store-exclusive: fails with an open monitor, and may fail (`ok = false`) with a closed one.
The result says whether it failed. -/
def storeEx (c : Cell ι α) (i : ι) (ok : Bool) (v : α) : Bool × Cell ι α :=
  if c.mon i && ok then (false, (c.store i v).clearEx i) else (true, c.clearEx i)

/-- Wait for an event: `none` while there is none. -/
def wfe (c : Cell ι α) (i : ι) : Option (Cell ι α) :=
  if c.event i then some { c with event := Function.update c.event i false } else none

/-- What an exception taken by a core does to it: the event register is set, and the monitor may be
lost. -/
def disturb (c : Cell ι α) (i : ι) (keep : Bool) : Cell ι α where
  val := c.val
  mon := Function.update c.mon i (c.mon i && keep)
  event := Function.update c.event i true

/-- A load-exclusive reads the value. -/
@[simp] lemma loadEx_fst : (c.loadEx i).1 = c.val := rfl

/-- A load-exclusive keeps the value. -/
@[simp] lemma loadEx_val : (c.loadEx i).2.val = c.val := rfl

/-- A load-exclusive sets the monitor. -/
@[simp] lemma loadEx_mon : (c.loadEx i).2.mon i = true := by
  simp [loadEx]

/-- The value that has been stored. -/
@[simp] lemma store_val {v : α} : (c.store i v).val = v := rfl

/-- Clearing the monitor keeps the value. -/
@[simp] lemma clearEx_val : (c.clearEx i).val = c.val := rfl

/-- A disturbance keeps the value. -/
@[simp] lemma disturb_val {keep : Bool} : (c.disturb i keep).val = c.val := rfl

/-- A store-exclusive either writes with its monitor closed or changes nothing but the monitor. -/
lemma storeEx_cases (c : Cell ι α) (i : ι) (ok : Bool) (v : α) :
    (c.mon i = true ∧ (c.storeEx i ok v).1 = false ∧ (c.storeEx i ok v).2.val = v) ∨
      ((c.storeEx i ok v).1 = true ∧ (c.storeEx i ok v).2.val = c.val) := by
  cases h : c.mon i && ok with
  | true =>
    rw [Bool.and_eq_true] at h
    exact .inl (by simp [storeEx, h])
  | false => exact .inr (by simp [storeEx, h])

/-- Undisturbed, a store-exclusive with a closed monitor succeeds. -/
lemma storeEx_of_mon (h : c.mon i = true) (v : α) :
    (c.storeEx i true v).1 = false ∧ (c.storeEx i true v).2.val = v := by
  simp [storeEx, h]

/-- `wfe` goes on when the event register is set. -/
lemma wfe_eq_some (h : c.wfe i = some c') : c.event i = true ∧ c'.val = c.val := by
  unfold wfe at h
  split at h
  · next he =>
    cases h
    exact ⟨he, rfl⟩
  · cases h

/-- With the event register set `wfe` goes on. -/
lemma wfe_of_event (h : c.event i = true) : ∃ c', c.wfe i = some c' := by
  exact ⟨_, by rw [wfe, if_pos h]⟩

/-! ## What the other cores do -/

/-- What core `j` sees of the steps of the others: a monitor that is still closed was closed all along and
the cell was not written, no event is taken away, and a monitor is not opened without an event. -/
structure Frame (c c' : Cell ι α) (j : ι) : Prop where
  closed : c'.mon j = true → c.mon j = true ∧ c'.val = c.val
  event : c.event j = true → c'.event j = true
  wakes : c.mon j = true → c'.mon j = true ∨ c'.event j = true

omit [DecidableEq ι] in
/-- Nothing has changed for the core. -/
lemma Frame.refl (c : Cell ι α) (j : ι) : Frame c c j :=
  ⟨fun h => ⟨h, rfl⟩, fun h => h, .inl⟩

omit [DecidableEq ι] in
/-- Two steps of other cores. -/
lemma Frame.trans (h : Frame c c' j) (h' : Frame c' c'' j) : Frame c c'' j := by
  refine ⟨fun e => ?_, fun e => h'.event (h.event e), fun e => ?_⟩
  · obtain ⟨e', hv'⟩ := h'.closed e
    obtain ⟨e, hv⟩ := h.closed e'
    exact ⟨e, hv'.trans hv⟩
  · cases h.wakes e with
    | inl e => exact h'.wakes e
    | inr e => exact .inr (h'.event e)

/-- A load-exclusive of another core. -/
lemma frame_loadEx (hj : j ≠ i) : Frame c (c.loadEx i).2 j := by
  refine ⟨fun h => ?_, fun h => h, fun h => .inl ?_⟩
  · simpa [loadEx, hj] using h
  · simpa [loadEx, hj] using h

/-- Another core clears its monitor. -/
lemma frame_clearEx (hj : j ≠ i) : Frame c (c.clearEx i) j := by
  refine ⟨fun h => ?_, fun h => h, fun h => .inl ?_⟩
  · simpa [clearEx, hj] using h
  · simpa [clearEx, hj] using h

/-- A store of another core. -/
lemma frame_store (hj : j ≠ i) (v : α) : Frame c (c.store i v) j := by
  refine ⟨fun h => ?_, fun h => ?_, fun h => .inr ?_⟩
  · simp [store, hj] at h
  · simp [store, h]
  · simp [store, hj, h]

/-- A store-exclusive of another core. -/
lemma frame_storeEx (hj : j ≠ i) (ok : Bool) (v : α) : Frame c (c.storeEx i ok v).2 j := by
  unfold storeEx
  split
  · exact (frame_store hj v).trans (frame_clearEx hj)
  · exact frame_clearEx hj

/-- Another core at `wfe`. -/
lemma frame_wfe (hj : j ≠ i) (h : c.wfe i = some c') : Frame c c' j := by
  unfold wfe at h
  split at h
  · cases h
    refine ⟨fun e => ⟨e, rfl⟩, fun e => ?_, .inl⟩
    simpa [hj] using e
  · cases h

/-- An exception is felt as a step of someone else, by the core that takes it too. -/
lemma frame_disturb (keep : Bool) : Frame c (c.disturb i keep) j := by
  by_cases hj : j = i
  · subst hj
    refine ⟨fun h => ?_, fun _ => ?_, fun _ => .inr ?_⟩
    · simp only [disturb, Function.update_self, Bool.and_eq_true] at h
      exact ⟨h.1, rfl⟩
    · simp [disturb]
    · simp [disturb]
  · refine ⟨fun h => ?_, fun h => ?_, fun h => .inl ?_⟩
    · simpa [disturb, hj] using h
    · simpa [disturb, hj] using h
    · simpa [disturb, hj] using h

end Cell

end KingdoKernel
