import KingdoKernel.Lib.Exclusive

/-!
# The inline assembly of `sync.h`

The templates of `spin_lock`, `spin_unlock`, `__atomic_compare_exchange`, `atomic_exchange_64` and
`__atomic_fetch_op` as lists of instructions, and what one instruction does to the cell the template works
on and to the registers of the core that executes it. Labels are positions in the list and operands have the
numbers they have in the template. Cores take turns, one instruction at a time: acquire and release, which
order accesses to other memory, are not modelled beyond that.
-/

namespace KingdoKernel.Sync

/-- The width of a register operand, `w` or `x`. -/
inductive Width where
  | w
  | x
deriving DecidableEq, Repr

/-- The `len` that goes with a width. -/
def Width.bits : Width → ℕ
  | w => 32
  | x => 64

/-- A width has bits. -/
@[simp] lemma Width.bits_ne_zero (d : Width) : d.bits ≠ 0 := by
  cases d with
  | w => decide
  | x => decide

/-- The instructions of the templates; the memory operand is always the cell. -/
inductive Instr where
  | ldaxr (rt : ℕ)
  | stxr (rs rt : ℕ)
  | stlxr (rs rt : ℕ)
  | stlr
  | cmp (rn rm : ℕ)
  | bne (label : ℕ)
  | cbnz (rt label : ℕ)
  | b (label : ℕ)
  | wfe
  | add (rd rn rm : ℕ)
  | sub (rd rn rm : ℕ)
deriving DecidableEq, Repr

/-- Where a core is in a template, its operands and the zero flag. -/
structure Local (d : Width) where
  pc : ℕ
  reg : ℕ → BitVec d.bits
  zero : Bool

namespace Local

variable {d : Width}

/-- The start of a template with the given operands. -/
def entry (reg : ℕ → BitVec d.bits) : Local d := ⟨0, reg, false⟩

def goto (l : Local d) (label : ℕ) : Local d := { l with pc := label }

/-- The next instruction, after a write of a register. -/
def set (l : Local d) (rd : ℕ) (v : BitVec d.bits) : Local d :=
  { l with pc := l.pc + 1, reg := Function.update l.reg rd v }

end Local

/-- What happens next: a core calls an operation, a core executes, or a core takes an exception. -/
inductive Label (ι ω : Type*) where
  | call (i : ι) (op : ω)
  | run (i : ι) (ok : Bool)
  | disturb (i : ι) (keep : Bool)

variable {ι : Type*} [DecidableEq ι] {d : Width}

/-- One instruction of core `i`. `ok = false` lets a store-exclusive fail without a reason. The status of
a store-exclusive is 0 for success and 1 for failure. -/
def exec (i : ι) (ok : Bool) (c : Cell ι (BitVec d.bits)) (l : Local d) :
    Instr → Cell ι (BitVec d.bits) × Local d
  | .ldaxr rt => ((c.loadEx i).2, l.set rt (c.loadEx i).1)
  | .stxr rs rt | .stlxr rs rt =>
    ((c.storeEx i ok (l.reg rt)).2, l.set rs (if (c.storeEx i ok (l.reg rt)).1 then 1 else 0))
  | .stlr => (c.store i 0, l.goto (l.pc + 1))
  | .cmp rn rm => (c, { l with pc := l.pc + 1, zero := l.reg rn == l.reg rm })
  | .bne label => (c, l.goto (if l.zero then l.pc + 1 else label))
  | .cbnz rt label => (c, l.goto (if l.reg rt = 0 then l.pc + 1 else label))
  | .b label => (c, l.goto label)
  | .wfe =>
    match c.wfe i with
    | some c => (c, l.goto (l.pc + 1))
    | none => (c, l)
  | .add rd rn rm => (c, l.set rd (l.reg rn + l.reg rm))
  | .sub rd rn rm => (c, l.set rd (l.reg rn - l.reg rm))

/-- `cbnz` of zero goes on. -/
lemma exec_cbnz_zero {i : ι} {ok : Bool} {c : Cell ι (BitVec d.bits)} {l : Local d} {rt : ℕ}
    (label : ℕ) (h : l.reg rt = 0) : exec i ok c l (.cbnz rt label) = (c, l.goto (l.pc + 1)) := by
  rw [exec, if_pos h]

/-- `cbnz` of anything else jumps. -/
lemma exec_cbnz_ne {i : ι} {ok : Bool} {c : Cell ι (BitVec d.bits)} {l : Local d} {rt : ℕ}
    (label : ℕ) (h : l.reg rt ≠ 0) : exec i ok c l (.cbnz rt label) = (c, l.goto label) := by
  rw [exec, if_neg h]

/-- `wfe` with the event register set. -/
lemma exec_wfe_some {i : ι} {ok : Bool} {c c' : Cell ι (BitVec d.bits)} {l : Local d}
    (h : c.wfe i = some c') : exec i ok c l .wfe = (c', l.goto (l.pc + 1)) := by
  rw [exec, h]

/-- `wfe` that waits. -/
lemma exec_wfe_none {i : ι} {ok : Bool} {c : Cell ι (BitVec d.bits)} {l : Local d}
    (h : c.wfe i = none) : exec i ok c l .wfe = (c, l) := by
  rw [exec, h]

/-- One step in a template; `none` at its end. -/
def step (code : List Instr) (i : ι) (ok : Bool) (c : Cell ι (BitVec d.bits)) (l : Local d) :
    Option (Cell ι (BitVec d.bits) × Local d) :=
  (code[l.pc]?).map (exec i ok c l)

/-- A step executes the instruction at the program counter. -/
lemma step_of_fetch {code : List Instr} {i : ι} {ok : Bool} {c : Cell ι (BitVec d.bits)}
    {l : Local d} {n : Instr} (h : code[l.pc]? = some n) :
    step code i ok c l = some (exec i ok c l n) := by
  rw [step, h, Option.map_some]

/-- The other cores see a step of core `i` as `Cell.Frame` says. -/
lemma frame_exec {i j : ι} (hj : j ≠ i) (ok : Bool) (c : Cell ι (BitVec d.bits)) (l : Local d)
    (n : Instr) : c.Frame (exec i ok c l n).1 j := by
  cases n with
  | ldaxr rt => exact Cell.frame_loadEx hj
  | stxr rs rt => exact Cell.frame_storeEx hj ok _
  | stlxr rs rt => exact Cell.frame_storeEx hj ok _
  | stlr => exact Cell.frame_store hj 0
  | cmp rn rm => exact Cell.Frame.refl c j
  | bne label => exact Cell.Frame.refl c j
  | cbnz rt label => exact Cell.Frame.refl c j
  | b label => exact Cell.Frame.refl c j
  | wfe =>
    rw [exec]
    split
    · next e => exact Cell.frame_wfe hj e
    · exact Cell.Frame.refl c j
  | add rd rn rm => exact Cell.Frame.refl c j
  | sub rd rn rm => exact Cell.Frame.refl c j

/-- A step of another core. -/
lemma frame_step {i j : ι} (hj : j ≠ i) {code : List Instr} {ok : Bool}
    {c c' : Cell ι (BitVec d.bits)} {l l' : Local d} (h : step code i ok c l = some (c', l')) :
    c.Frame c' j := by
  rw [step, Option.map_eq_some_iff] at h
  obtain ⟨n, -, e⟩ := h
  have hf := frame_exec hj ok c l n
  rw [e] at hf
  exact hf

/-! ## The templates -/

/-- `spin_lock`: `%0` is `tmp` and `%2` is 1. -/
def spinLock : List Instr :=
  [ .ldaxr 0,      -- 1:
    .cbnz 0 5,     --    2f
    .stxr 0 2,
    .cbnz 0 0,     --    1b
    .b 7,          --    3f
    .wfe,          -- 2:
    .b 0 ]         --    1b; 3:

/-- The operands of `spin_lock`. -/
def spinLockEntry : Local .w := .entry fun r => if r = 2 then 1 else 0

/-- `spin_unlock`. -/
def spinUnlock : List Instr := [.stlr]

def spinUnlockEntry : Local .w := .entry fun _ => 0

/-- `__atomic_compare_exchange`: `%0` is `oldval`, `%1` is `ret`, `%3` is `compare` and `%4` is
`exchange`. -/
def atomicCompareExchange : List Instr :=
  [ .ldaxr 0,      -- 1:
    .cmp 0 3,
    .bne 5,        --    2f
    .stlxr 1 4,
    .cbnz 1 0 ]    --    1b; 2:

/-- `atomic_exchange_64`: `%0` is `oldval`, `%1` is `ret` and `%3` is `exchange`. -/
def atomicExchange : List Instr :=
  [ .ldaxr 0,      -- 1:
    .stlxr 1 3,
    .cbnz 1 0 ]    --    1b; 2:

/-- `__atomic_fetch_op`: `%0` is `oldval`, `%1` is `newval`, `%2` is `ret` and `%4` is `val`. -/
def atomicFetchOp (op : ℕ → ℕ → ℕ → Instr) : List Instr :=
  [ .ldaxr 0,      -- 1:
    op 1 0 4,
    .stlxr 2 1,
    .cbnz 2 0 ]    --    1b; 2:

end KingdoKernel.Sync
