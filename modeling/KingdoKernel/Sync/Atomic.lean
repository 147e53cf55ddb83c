import KingdoKernel.Lib.Linear
import KingdoKernel.Sync.Basic

/-!
# The atomic operations

Any number of cores apply `atomic_compare_exchange`, `atomic_exchange_64`, `atomic_fetch_add` and
`atomic_fetch_sub` to one word. Each operation is a loop around a load-exclusive and a store-exclusive; the
instructions of the cores interleave in any order, store-exclusives may fail and exceptions may come at any
point. Every operation nevertheless takes effect at once, at its successful store or, for a comparison that
fails, at the load that saw the other value.
-/

namespace KingdoKernel.Sync

/-- The `op` of `__atomic_fetch_op`. -/
inductive FetchOp where
  | add
  | sub
deriving DecidableEq, Repr

namespace FetchOp

def instr : FetchOp → ℕ → ℕ → ℕ → Instr
  | add => .add
  | sub => .sub

def eval {n : ℕ} : FetchOp → BitVec n → BitVec n → BitVec n
  | add, a, b => a + b
  | sub, a, b => a - b

end FetchOp

/-- The operations of `sync.h` on a word, with their operands. -/
inductive AtomicOp : Width → Type where
  | compareExchange {d : Width} (compare exchange : BitVec d.bits) : AtomicOp d
  | exchange (new : BitVec Width.x.bits) : AtomicOp .x
  | fetch {d : Width} (op : FetchOp) (val : BitVec d.bits) : AtomicOp d

namespace AtomicOp

variable {d : Width}

/-- `atomic_fetch_add_32` and `atomic_fetch_add_64`. -/
def fetchAdd (val : BitVec d.bits) : AtomicOp d := fetch .add val

/-- `atomic_fetch_sub_32` and `atomic_fetch_sub_64`. -/
def fetchSub (val : BitVec d.bits) : AtomicOp d := fetch .sub val

/-- The template of an operation. -/
def code : AtomicOp d → List Instr
  | compareExchange _ _ => atomicCompareExchange
  | exchange _ => atomicExchange
  | fetch op _ => atomicFetchOp op.instr

/-- Its operands. -/
def entry : AtomicOp d → Local d
  | compareExchange compare new => .entry fun r => if r = 3 then compare else new
  | exchange new => .entry fun _ => new
  | fetch _ val => .entry fun _ => val

/-- What the operation makes of the word; it returns the old value. -/
def apply : AtomicOp d → BitVec d.bits → BitVec d.bits
  | compareExchange compare new, old => if old = compare then new else old
  | exchange new, _ => new
  | fetch op val, old => op.eval old val

/-- The operation has taken effect. -/
def Done (op : AtomicOp d) (l : Local d) : Prop :=
  match op with
  | compareExchange _ _ =>
    (l.pc = 1 ∧ l.reg 0 ≠ l.reg 3) ∨ (l.pc = 2 ∧ l.reg 0 ≠ l.reg 3) ∨ (l.pc = 4 ∧ l.reg 1 = 0) ∨ l.pc = 5
  | exchange _ => (l.pc = 2 ∧ l.reg 1 = 0) ∨ l.pc = 3
  | fetch _ _ => (l.pc = 3 ∧ l.reg 2 = 0) ∨ l.pc = 4

/-- What core `i` knows in the loop: while its monitor is closed the word is what it loaded. -/
def Inv {ι : Type*} (c : Cell ι (BitVec d.bits)) (i : ι) (op : AtomicOp d) (l : Local d) : Prop :=
  match op with
  | compareExchange compare new =>
    l.reg 3 = compare ∧ l.reg 4 = new ∧
    (l.pc = 0 ∨ l.pc = 4 ∨ l.pc = 5 ∨ (c.mon i = true → c.val = l.reg 0) ∧
      (l.pc = 1 ∨ (l.pc = 2 ∧ l.zero = (l.reg 0 == l.reg 3)) ∨ (l.pc = 3 ∧ l.reg 0 = l.reg 3)))
  | exchange new =>
    l.reg 3 = new ∧
    (l.pc = 0 ∨ l.pc = 2 ∨ l.pc = 3 ∨ (c.mon i = true → c.val = l.reg 0) ∧ l.pc = 1)
  | fetch op val =>
    l.reg 4 = val ∧
    (l.pc = 0 ∨ l.pc = 3 ∨ l.pc = 4 ∨ (c.mon i = true → c.val = l.reg 0) ∧
      (l.pc = 1 ∨ (l.pc = 2 ∧ l.reg 1 = op.eval (l.reg 0) val)))

variable {ι : Type*}

/-- The invariant holds at the entry of an operation. -/
lemma entry_inv (c : Cell ι (BitVec d.bits)) (i : ι) (op : AtomicOp d) : op.Inv c i op.entry := by
  cases op with
  | compareExchange compare new => exact ⟨rfl, rfl, .inl rfl⟩
  | exchange new => exact ⟨rfl, .inl rfl⟩
  | fetch op val => exact ⟨rfl, .inl rfl⟩

/-- An operation is not done at its entry. -/
lemma entry_not_done (op : AtomicOp d) : ¬ op.Done op.entry := by
  cases op <;> simp [Done, entry, Local.entry]

/-- Steps of the others do not take away what the core knows. -/
lemma Inv.frame {c c' : Cell ι (BitVec d.bits)} {i : ι} {op : AtomicOp d} {l : Local d}
    (h : op.Inv c i l) (hf : c.Frame c' i) : op.Inv c' i l := by
  have hval : (c.mon i = true → c.val = l.reg 0) → c'.mon i = true → c'.val = l.reg 0 := by
    intro hv hm
    obtain ⟨hm, e⟩ := hf.closed hm
    rw [e, hv hm]
  cases op with
  | compareExchange compare new =>
    obtain ⟨h3, h4, h⟩ := h
    exact ⟨h3, h4, h.imp_right (.imp_right (.imp_right (.imp_left hval)))⟩
  | exchange new =>
    obtain ⟨h3, h⟩ := h
    exact ⟨h3, h.imp_right (.imp_right (.imp_right (.imp_left hval)))⟩
  | fetch op val =>
    obtain ⟨h4, h⟩ := h
    exact ⟨h4, h.imp_right (.imp_right (.imp_right (.imp_left hval)))⟩

/-- What a fetch operation adds. -/
def delta : AtomicOp d → BitVec d.bits
  | fetch .add val => val
  | fetch .sub val => -val
  | compareExchange _ _ => 0
  | exchange _ => 0

/-- The operation is a fetch operation. -/
def IsFetch : AtomicOp d → Prop
  | fetch _ _ => True
  | compareExchange _ _ => False
  | exchange _ => False

/-- The fetch operations add their difference. -/
lemma apply_of_isFetch {op : AtomicOp d} (h : op.IsFetch) (v : BitVec d.bits) :
    op.apply v = v + op.delta := by
  cases op with
  | compareExchange compare new => exact h.elim
  | exchange new => exact h.elim
  | fetch op val =>
    cases op with
    | add => rfl
    | sub => exact BitVec.sub_eq_add_neg v val

/-- What a step from `l` to `l'` does to the word: nothing, or the whole of the operation. -/
inductive Outcome (op : AtomicOp d) (v v' : BitVec d.bits) (l l' : Local d) : Prop where
  | quiet : v' = v → (op.Done l' ↔ op.Done l) → (op.Done l → l'.reg 0 = l.reg 0) → Outcome op v v' l l'
  | effect : ¬ op.Done l → op.Done l' → l'.reg 0 = v → v' = op.apply v → Outcome op v v' l l'

variable [DecidableEq ι]

/-- The steps of an operation on core `i`: at the end of the template it is done; before, a step keeps what
the core knows and has one of the outcomes. -/
def Steps (c : Cell ι (BitVec d.bits)) (i : ι) (ok : Bool) (op : AtomicOp d) (l : Local d) : Prop :=
  (step op.code i ok c l = none ∧ op.Done l) ∨
    ∃ c' l', step op.code i ok c l = some (c', l') ∧ op.Inv c' i l' ∧ op.Outcome c.val c'.val l l'

/-- The end of a loop: out when the store has succeeded, back to the load when it has not. -/
lemma steps_cbnz {c : Cell ι (BitVec d.bits)} {i : ι} {op : AtomicOp d} {l : Local d} {r : ℕ}
    (hf : op.code[l.pc]? = some (.cbnz r 0)) (hd : op.Done l ↔ l.reg r = 0)
    (hend : op.Inv c i (l.goto (l.pc + 1)) ∧ op.Done (l.goto (l.pc + 1)))
    (hback : op.Inv c i (l.goto 0) ∧ ¬ op.Done (l.goto 0)) (ok : Bool) : Steps c i ok op l := by
  by_cases e : l.reg r = 0
  · refine .inr ⟨c, l.goto (l.pc + 1), ?_, hend.1, .quiet rfl ?_ fun _ => rfl⟩
    · rw [step_of_fetch hf, exec_cbnz_zero 0 e]
    · exact iff_of_true hend.2 (hd.2 e)
  · refine .inr ⟨c, l.goto 0, ?_, hback.1, .quiet rfl ?_ fun _ => rfl⟩
    · rw [step_of_fetch hf, exec_cbnz_ne 0 e]
    · exact iff_of_false hback.2 fun h => e (hd.1 h)

/-- The store: it succeeds only with the word that was loaded still there. -/
lemma steps_stlxr {c : Cell ι (BitVec d.bits)} {i : ι} {op : AtomicOp d} {l : Local d} {r t : ℕ}
    (hf : op.code[l.pc]? = some (.stlxr r t)) (h0 : r ≠ 0) (hv : c.mon i = true → c.val = l.reg 0)
    (hnew : l.reg t = op.apply (l.reg 0)) (hnd : ¬ op.Done l)
    (hinv : ∀ c' st, op.Inv c' i (l.set r st)) (hd : ∀ st, op.Done (l.set r st) ↔ st = 0)
    (ok : Bool) : Steps c i ok op l := by
  have h0' : ∀ st, (l.set r st).reg 0 = l.reg 0 := fun st => by simp [Local.set, h0.symm]
  refine .inr ⟨_, _, step_of_fetch hf, hinv _ _, ?_⟩
  rcases c.storeEx_cases i ok (l.reg t) with ⟨hm, e, hv'⟩ | ⟨e, hv'⟩
  · refine .effect hnd ((hd _).2 ?_) ?_ ?_
    · rw [e]
      rfl
    · rw [hv hm]
      exact h0' _
    · rw [hv hm, ← hnew]
      exact hv'
  · refine .quiet hv' (iff_of_false (fun h => ?_) hnd) fun h => absurd h hnd
    rw [hd, e] at h
    simp at h

/-- Every step of `compare_exchange`. -/
lemma compareExchange_steps {c : Cell ι (BitVec d.bits)} {i : ι} {compare new : BitVec d.bits}
    {l : Local d} (h : (compareExchange compare new).Inv c i l) (ok : Bool) :
    Steps c i ok (compareExchange compare new) l := by
  obtain ⟨pc, reg, z⟩ := l
  obtain ⟨h3, h4, h⟩ := h
  dsimp only at h3 h4 h
  obtain rfl | rfl | rfl | ⟨hv, rfl | ⟨rfl, hz⟩ | ⟨rfl, e⟩⟩ := h
  · -- the comparison is decided by the value loaded
    have h3' : Function.update reg 0 c.val 3 = compare := by simpa using h3
    have hinv : (compareExchange compare new).Inv (c.loadEx i).2 i
        ((⟨0, reg, z⟩ : Local d).set 0 c.val) :=
      ⟨h3', by simpa [Local.set] using h4, .inr (.inr (.inr ⟨fun _ => by simp [Local.set], .inl rfl⟩))⟩
    refine .inr ⟨_, _, rfl, hinv, ?_⟩
    by_cases e : c.val = compare
    · refine .quiet rfl (iff_of_false ?_ ?_) fun h => absurd h ?_
      all_goals simp [Done, Local.set, h3, e]
    · refine .effect ?_ ?_ ?_ ?_
      · simp [Done]
      · simp [Done, Local.set, h3, e]
      · simp [Local.set]
      · simp [apply, e]
  · refine steps_cbnz rfl ?_ ⟨?_, ?_⟩ ⟨?_, ?_⟩ ok
    · simp [Done]
    · exact ⟨h3, h4, .inr (.inr (.inl rfl))⟩
    · simp [Done, Local.goto]
    · exact ⟨h3, h4, .inl rfl⟩
    · simp [Done, Local.goto]
  · exact .inl ⟨rfl, .inr (.inr (.inr rfl))⟩
  · refine .inr ⟨c, _, rfl, ⟨h3, h4, .inr (.inr (.inr ⟨hv, .inr (.inl ⟨rfl, rfl⟩)⟩))⟩, .quiet rfl ?_ ?_⟩
    · simp [Done]
    · exact fun _ => rfl
  · by_cases e : reg 0 = reg 3
    · refine .inr ⟨c, ⟨3, reg, z⟩, ?_, ⟨h3, h4, .inr (.inr (.inr ⟨hv, .inr (.inr ⟨rfl, e⟩)⟩))⟩,
        .quiet rfl ?_ fun _ => rfl⟩
      · rw [step_of_fetch rfl]
        simp [exec, Local.goto, hz, e]
      · simp [Done, e]
    · refine .inr ⟨c, ⟨5, reg, z⟩, ?_, ⟨h3, h4, .inr (.inr (.inl rfl))⟩, .quiet rfl ?_ fun _ => rfl⟩
      · rw [step_of_fetch rfl]
        simp [exec, Local.goto, hz, e]
      · simp [Done, e]
  · refine steps_stlxr (r := 1) (t := 4) rfl (by decide) hv ?_ ?_ (fun c' st => ?_) (fun st => ?_) ok
    · simp [apply, h4, e, h3]
    · simp [Done]
    · exact ⟨by simpa [Local.set] using h3, by simpa [Local.set] using h4, .inr (.inl rfl)⟩
    · simp [Done, Local.set]

/-- Every step of `exchange`. -/
lemma exchange_steps {c : Cell ι (BitVec Width.x.bits)} {i : ι} {new : BitVec Width.x.bits}
    {l : Local .x} (h : (exchange new).Inv c i l) (ok : Bool) : Steps c i ok (exchange new) l := by
  obtain ⟨pc, reg, z⟩ := l
  obtain ⟨h3, h⟩ := h
  dsimp only at h3 h
  obtain rfl | rfl | rfl | ⟨hv, rfl⟩ := h
  · refine .inr ⟨_, _, rfl, ⟨by simpa [Local.set] using h3, .inr (.inr (.inr ⟨?_, rfl⟩))⟩,
      .quiet rfl ?_ ?_⟩
    · exact fun _ => by simp [Local.set]
    · simp [Done, Local.set]
    · simp [Done]
  · refine steps_cbnz rfl ?_ ⟨?_, ?_⟩ ⟨?_, ?_⟩ ok
    · simp [Done]
    · exact ⟨h3, .inr (.inr (.inl rfl))⟩
    · simp [Done, Local.goto]
    · exact ⟨h3, .inl rfl⟩
    · simp [Done, Local.goto]
  · exact .inl ⟨rfl, .inr rfl⟩
  · refine steps_stlxr (r := 1) (t := 3) rfl (by decide) hv h3 ?_ (fun c' st => ?_) (fun st => ?_) ok
    · simp [Done]
    · exact ⟨by simpa [Local.set] using h3, .inr (.inl rfl)⟩
    · simp [Done, Local.set]

/-- Every step of the fetch operations. -/
lemma fetch_steps {c : Cell ι (BitVec d.bits)} {i : ι} {op : FetchOp} {val : BitVec d.bits}
    {l : Local d} (h : (fetch op val).Inv c i l) (ok : Bool) : Steps c i ok (fetch op val) l := by
  obtain ⟨pc, reg, z⟩ := l
  obtain ⟨h4, h⟩ := h
  dsimp only at h4 h
  obtain rfl | rfl | rfl | ⟨hv, rfl | ⟨rfl, e⟩⟩ := h
  · refine .inr ⟨_, _, rfl, ⟨by simpa [Local.set] using h4, .inr (.inr (.inr ⟨?_, .inl rfl⟩))⟩,
      .quiet rfl ?_ ?_⟩
    · exact fun _ => by simp [Local.set]
    · simp [Done, Local.set]
    · simp [Done]
  · refine steps_cbnz rfl ?_ ⟨?_, ?_⟩ ⟨?_, ?_⟩ ok
    · simp [Done]
    · exact ⟨h4, .inr (.inr (.inl rfl))⟩
    · simp [Done, Local.goto]
    · exact ⟨h4, .inl rfl⟩
    · simp [Done, Local.goto]
  · exact .inl ⟨rfl, .inr rfl⟩
  · have hex : exec i ok c (⟨1, reg, z⟩ : Local d) (op.instr 1 0 4) =
        (c, (⟨1, reg, z⟩ : Local d).set 1 (op.eval (reg 0) (reg 4))) := by
      cases op <;> rfl
    refine .inr ⟨c, (⟨1, reg, z⟩ : Local d).set 1 (op.eval (reg 0) (reg 4)), ?_,
      ⟨by simpa [Local.set] using h4, .inr (.inr (.inr ⟨?_, .inr ⟨rfl, ?_⟩⟩))⟩, .quiet rfl ?_ ?_⟩
    · rw [← hex]
      exact step_of_fetch rfl
    · simpa [Local.set] using hv
    · simp [Local.set, h4]
    · simp [Done, Local.set]
    · simp [Done]
  · refine steps_stlxr (r := 2) (t := 1) rfl (by decide) hv e ?_ (fun c' st => ?_) (fun st => ?_) ok
    · simp [Done]
    · exact ⟨by simpa [Local.set] using h4, .inr (.inl rfl)⟩
    · simp [Done, Local.set]

/-- All the operations go through their loops so. -/
lemma Inv.steps {c : Cell ι (BitVec d.bits)} {i : ι} {op : AtomicOp d} {l : Local d}
    (h : op.Inv c i l) (ok : Bool) : Steps c i ok op l := by
  cases op with
  | compareExchange compare new => exact compareExchange_steps h ok
  | exchange new => exact exchange_steps h ok
  | fetch op val => exact fetch_steps h ok

end AtomicOp

/-! ## Cores at work on one word -/

/-- A word and the operations under way on it. -/
structure Word (ι : Type*) (d : Width) where
  cell : Cell ι (BitVec d.bits)
  core : ι → Option (AtomicOp d × Local d)

/-- The operations, each in one step. -/
def atomicSpec (d : Width) : Machine Empty (BitVec d.bits) (AtomicOp d) (BitVec d.bits) where
  enabled _ _ := True
  exec v op := .ok (v, op.apply v)

namespace Word

variable {ι : Type*} [DecidableEq ι] {d : Width} {s : Word ι d} {i : ι}

/-- One step of core `i`; at the end of the template it returns `oldval`. -/
def run (s : Word ι d) (i : ι) (ok : Bool) :
    Option (Event ι (AtomicOp d) (BitVec d.bits)) × Word ι d :=
  match s.core i with
  | none => (none, s)
  | some (op, l) =>
    match step op.code i ok s.cell l with
    | some (c, l) => (none, ⟨c, Function.update s.core i (some (op, l))⟩)
    | none => (some (.ret i (l.reg 0)), ⟨s.cell, Function.update s.core i none⟩)

/-- The cores driven by their callers. -/
def machine : Machine Empty (Word ι d) (Label ι (AtomicOp d))
    (Option (Event ι (AtomicOp d) (BitVec d.bits))) where
  enabled s
    | .call i _ => s.core i = none
    | .run i _ => s.core i ≠ none
    | .disturb _ _ => True
  exec s
    | .call i op => .ok (some (.call i op), ⟨s.cell, Function.update s.core i (some (op, op.entry))⟩)
    | .run i ok => .ok (s.run i ok)
    | .disturb i keep => .ok (none, ⟨s.cell.disturb i keep, s.core⟩)

/-- A word with no operation under way. -/
def start (v : BitVec d.bits) : Word ι d := ⟨⟨v, fun _ => false, fun _ => false⟩, fun _ => none⟩

/-- What is known of all the operations under way. -/
def Inv (s : Word ι d) : Prop :=
  ∀ i op l, s.core i = some (op, l) → op.Inv s.cell i l

open Classical in
/-- How far the caller on core `i` is. -/
noncomputable def status (s : Word ι d) (i : ι) : Status (AtomicOp d) (BitVec d.bits) :=
  match s.core i with
  | none => .idle
  | some (op, l) => if op.Done l then .done (l.reg 0) else .pending op

omit [DecidableEq ι] in
/-- A core without an operation is idle. -/
lemma status_none (h : s.core i = none) : s.status i = .idle := by
  rw [status, h]

omit [DecidableEq ι] in
/-- A core whose operation has taken effect. -/
lemma status_done {op : AtomicOp d} {l : Local d} (h : s.core i = some (op, l)) (hd : op.Done l) :
    s.status i = .done (l.reg 0) := by
  simp only [status, h, hd, if_true]

omit [DecidableEq ι] in
/-- A core whose operation has not taken effect. -/
lemma status_pending {op : AtomicOp d} {l : Local d} (h : s.core i = some (op, l))
    (hd : ¬ op.Done l) : s.status i = .pending op := by
  simp only [status, h, hd, if_false]

/-- Only the caller on core `i` gets any further in a step of that core. -/
lemma status_update (c : Cell ι (BitVec d.bits)) (x : Option (AtomicOp d × Local d))
    {st : Status (AtomicOp d) (BitVec d.bits)}
    (h : (Word.mk c (Function.update s.core i x)).status i = st) :
    (Word.mk c (Function.update s.core i x)).status = Function.update s.status i st := by
  funext j
  by_cases hj : j = i
  · subst hj
    rw [Function.update_self, h]
  · rw [Function.update_of_ne hj, status, status]
    simp only [Function.update_of_ne hj]

/-- A step of core `i` that shows others what `Cell.Frame` allows. -/
lemma Inv.update (h : s.Inv) {c : Cell ι (BitVec d.bits)} {x : Option (AtomicOp d × Local d)}
    (hf : ∀ j, j ≠ i → s.cell.Frame c j) (hx : ∀ op l, x = some (op, l) → op.Inv c i l) :
    (Word.mk c (Function.update s.core i x)).Inv := by
  intro j op l e
  by_cases hj : j = i
  · subst hj
    exact hx op l ((Function.update_self j x s.core).symm.trans e)
  · have e : s.core j = some (op, l) := (Function.update_of_ne hj x s.core).symm.trans e
    exact (h j op l e).frame (hf j hj)

/-- The calls and returns are those of the specification used atomically. -/
lemma machine_linearizes :
    Linearizes machine (atomicSpec d) (fun s : Word ι d => s.Inv) (fun s => s.cell.val) status := by
  intro s a h hen
  cases a with
  | call i op =>
    have hi : s.core i = none := hen
    refine ⟨_, _, rfl, h.update (fun j _ => .refl _ j) ?_, fun v hist he => ?_⟩
    · intro op' l e
      cases e
      exact op.entry_inv s.cell i
    · rw [status_update s.cell _ (status_pending (Function.update_self ..) op.entry_not_done)]
      exact he.call (status_none hi)
  | run i ok =>
    cases hi : s.core i with
    | none => exact absurd hi hen
    | some x =>
      obtain ⟨op, l⟩ := x
      rcases (h i op l hi).steps ok with ⟨e, hd⟩ | ⟨c, l', e, hinv, hout⟩
      · have hrun : s.run i ok = (some (.ret i (l.reg 0)), ⟨s.cell, Function.update s.core i none⟩) := by
          simp only [run, hi, e]
        refine ⟨_, _, congrArg _ hrun, h.update (fun j _ => .refl _ j) ?_, fun v hist he => ?_⟩
        · exact fun op l e => by cases e
        · rw [status_update s.cell _ (status_none (Function.update_self ..))]
          exact he.ret (status_done hi hd)
      · have hrun : s.run i ok = (none, ⟨c, Function.update s.core i (some (op, l'))⟩) := by
          simp only [run, hi, e]
        refine ⟨_, _, congrArg _ hrun, h.update (fun j hj => frame_step hj e) ?_, fun v hist he => ?_⟩
        · intro op' l'' e
          cases e
          exact hinv
        · rw [Option.toList_none, List.append_nil]
          dsimp only at he ⊢
          cases hout with
          | quiet hv hd hreg =>
            have hst : (Word.mk c (Function.update s.core i (some (op, l')))).status i = s.status i := by
              by_cases hdone : op.Done l
              · rw [status_done hi hdone, ← hreg hdone]
                exact status_done (Function.update_self ..) (hd.2 hdone)
              · rw [status_pending hi hdone]
                exact status_pending (Function.update_self ..) fun h => hdone (hd.1 h)
            rw [status_update c _ hst, Function.update_eq_self, hv]
            exact he
          | effect hnd hd hreg hv =>
            rw [status_update c _ (status_done (Function.update_self ..) hd), hreg, hv]
            exact he.effect (status_pending hi hnd) trivial rfl
  | disturb i keep =>
    refine ⟨none, _, rfl, fun j op l e => ?_, fun v hist he => ?_⟩
    · exact (h j op l e).frame (Cell.frame_disturb keep)
    · rw [Option.toList_none, List.append_nil]
      exact he

omit [DecidableEq ι] in
/-- The invariant holds at the start. -/
lemma start_inv (v : BitVec d.bits) : (start v : Word ι d).Inv := fun _ _ _ e => by cases e

/-- Whatever the interleaving, each operation takes effect at once between its call and its return, and
returns the value it found. -/
theorem atomic_linearizable {v : BitVec d.bits} {ls os} (r : machine.Run (start v) ls os s) :
    Linear (atomicSpec d) v os.reduceOption s.cell.val s.status :=
  machine_linearizes.run r (start_inv v) .nil

/-- Two increments overlap: the store of the second core fails once. -/
lemma increments_run : ∃ s : Word Bool .w, ∃ ls,
    machine.Run (start 7) ls
      [some (.call false (.fetchAdd 1)), some (.call true (.fetchAdd 1)), none, none, none, none, none, none,
        none, some (.ret false 7), none, none, none, none, none, some (.ret true 8)] s ∧
      ∀ i, s.core i = none := by
  have hr {x : AtomicOp .w × Local .w} : some x ≠ none := Option.some_ne_none x
  refine ⟨_, [.call false (.fetchAdd 1), .call true (.fetchAdd 1), .run false true, .run true true,
    .run false true, .run true true, .run false true, .run true true, .run false true, .run false true,
    .run true true, .run true true, .run true true, .run true true, .run true true, .run true true],
    .cons rfl rfl <| .cons rfl rfl <| .cons hr rfl <| .cons hr rfl <| .cons hr rfl <| .cons hr rfl <|
    .cons hr rfl <| .cons hr rfl <| .cons hr rfl <| .cons hr rfl <| .cons hr rfl <| .cons hr rfl <|
    .cons hr rfl <| .cons hr rfl <| .cons hr rfl <| .cons hr rfl .nil, fun i => ?_⟩
  cases i <;> rfl

/-- Two cores add one, interleaved, and read 7 and 8. -/
theorem atomic_linearizable_increments : ∃ s : Word Bool .w, ∃ h : List (Event Bool (AtomicOp .w) _),
    Linear (atomicSpec .w) 7 h s.cell.val s.status ∧ rets h = [(false, 7), (true, 8)] := by
  obtain ⟨s, ls, r, -⟩ := increments_run
  exact ⟨s, _, atomic_linearizable r, rfl⟩

/-- A run of fetch operations adds up. -/
lemma spec_sum {v w : BitVec d.bits} {ops os} (r : (atomicSpec d).Run v ops os w)
    (h : ∀ op ∈ ops, op.IsFetch) : w = v + (ops.map AtomicOp.delta).sum := by
  induction r with
  | nil => simp
  | cons _ hex _ ih =>
    cases hex
    rw [ih fun op hop => h op (List.mem_cons_of_mem _ hop), AtomicOp.apply_of_isFetch (h _ List.mem_cons_self),
      List.map_cons, List.sum_cons, BitVec.add_assoc]

/-- No update is lost: when all the `atomic_fetch_add` and `atomic_fetch_sub` called have returned, the word
is its first value and all that was added and subtracted. -/
theorem atomic_fetch_total {v : BitVec d.bits} {ls os} (r : machine.Run (start v) ls os s)
    (hidle : ∀ i, s.core i = none) (hf : ∀ x ∈ calls os.reduceOption, x.2.IsFetch) :
    s.cell.val = v + ((calls os.reduceOption).map fun x => x.2.delta).sum := by
  obtain ⟨ops, os', r', hp⟩ :=
    (machine_linearizes.run r (start_inv v) .nil).perm fun i => status_none (hidle i)
  have hops : ∀ op ∈ ops, op.IsFetch := by
    intro op hop
    obtain ⟨x, hx, rfl⟩ := List.mem_map.1 (hp.subset hop)
    exact hf x hx
  rw [spec_sum r' hops, (hp.map AtomicOp.delta).sum_eq, List.map_map]
  rfl

/-- The two additions are both counted. -/
theorem atomic_fetch_total_increments : ∃ s : Word Bool .w, ∃ ls os,
    machine.Run (start 7) ls os s ∧ s.cell.val = 9 := by
  obtain ⟨s, ls, r, hidle⟩ := increments_run
  refine ⟨s, ls, _, r, (atomic_fetch_total r hidle fun x hx => ?_).trans rfl⟩
  obtain rfl | rfl : x = (false, .fetchAdd 1) ∨ x = (true, .fetchAdd 1) := by
    simpa [calls, List.reduceOption] using hx
  · trivial
  · trivial

/-- Increments return one value after the other. -/
lemma spec_tickets {v w : BitVec d.bits} {ops os} (r : (atomicSpec d).Run v ops os w)
    (h : ∀ op ∈ ops, op = AtomicOp.fetchAdd 1) :
    os = (List.range ops.length).map fun k => v + BitVec.ofNat d.bits k := by
  induction r with
  | nil => rfl
  | @cons v v' w op o ops os _ hex _ ih =>
    obtain rfl : op = AtomicOp.fetchAdd 1 := h _ List.mem_cons_self
    cases hex
    rw [ih fun op hop => h op (List.mem_cons_of_mem _ hop), List.length_cons, List.range_succ_eq_map,
      List.map_cons, List.map_map]
    refine congrArg₂ _ (by simp) (List.map_congr_left fun k _ => ?_)
    have e : (AtomicOp.fetchAdd 1 : AtomicOp d).apply v = v + 1 := rfl
    rw [Function.comp_apply, e, BitVec.add_assoc, Nat.succ_eq_add_one, BitVec.ofNat_add, BitVec.add_comm 1]
    rfl

/-- Tickets: while at most as many calls of `atomic_fetch_add(p, 1)` are made as the word has values, no two
of them return the same one. -/
theorem atomic_fetch_add_tickets {v : BitVec d.bits} {ls os} (r : machine.Run (start v) ls os s)
    (hf : ∀ x ∈ calls os.reduceOption, x.2 = AtomicOp.fetchAdd 1)
    (hn : (calls os.reduceOption).length ≤ 2 ^ d.bits) :
    ((rets os.reduceOption).map Prod.snd).Nodup := by
  obtain ⟨ops, os', r', hrets, hcalls⟩ := (machine_linearizes.run r (start_inv v) .nil).subperm
  have hops : ∀ op ∈ ops, op = AtomicOp.fetchAdd 1 := by
    intro op hop
    obtain ⟨x, hx, rfl⟩ := List.mem_map.1 (hcalls.subset hop)
    exact hf x hx
  have hlen : ops.length ≤ 2 ^ d.bits := by
    refine hcalls.length_le.trans ?_
    rw [List.length_map]
    exact hn
  have hnodup : os'.Nodup := by
    rw [spec_tickets r' hops]
    refine List.nodup_range.map_on fun j hj k hk e => ?_
    have hj : j < 2 ^ d.bits := (List.mem_range.1 hj).trans_le hlen
    have hk : k < 2 ^ d.bits := (List.mem_range.1 hk).trans_le hlen
    have e' := congrArg BitVec.toNat ((BitVec.add_right_inj v).1 e)
    rw [BitVec.toNat_ofNat, BitVec.toNat_ofNat, Nat.mod_eq_of_lt hj, Nat.mod_eq_of_lt hk] at e'
    exact e'
  obtain ⟨l, hp, hs⟩ := hrets
  exact hp.nodup_iff.1 (hs.nodup hnodup)

/-- The two cores get different tickets. -/
theorem atomic_fetch_add_tickets_increments : ∃ (s : Word Bool .w) (ls : _) (os : _),
    machine.Run (start 7) ls os s ∧ ((rets os.reduceOption).map Prod.snd).Nodup := by
  obtain ⟨s, ls, r, -⟩ := increments_run
  refine ⟨s, ls, _, r, atomic_fetch_add_tickets r (fun x hx => ?_) ?_⟩
  · obtain rfl | rfl : x = (false, .fetchAdd 1) ∨ x = (true, .fetchAdd 1) := by
      simpa [calls, List.reduceOption] using hx
    · rfl
    · rfl
  · decide

end Word

end KingdoKernel.Sync
