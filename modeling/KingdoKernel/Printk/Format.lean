import KingdoKernel.Printk.Basic

/-!
# Format strings

The formats that `simple_vsprintf` supports, as text and complete conversion specifications. A `Spec` is
what a specification says and `Spec.render` how it is written; `conversion_render` reads it back: the
scanner finds the flags and the width, takes the argument of a `*`, and the `switch` then does what
`Conv.out` says of the conversion, with the union as the conversions before have left it.
-/

namespace KingdoKernel.Printk

/-- The length modifiers. -/
inductive Length where
  | none | h | hh | l | ll
deriving DecidableEq, Repr

/-- The conversions that every `switch` has. -/
inductive Letter where
  | d | u | x | X
deriving DecidableEq, Repr

/-- The conversions, with their length modifiers. -/
inductive Conv where
  | int (m : Length) (t : Letter)
  | b | p | c | s
deriving DecidableEq, Repr

/-- The characters of a length modifier. -/
def Length.render : Length → List Char
  | .none => []
  | .h => ['h']
  | .hh => ['h', 'h']
  | .l => ['l']
  | .ll => ['l', 'l']

/-- The character of a conversion. -/
def Letter.char : Letter → Char
  | .d => 'd'
  | .u => 'u'
  | .x => 'x'
  | .X => 'X'

namespace Conv

/-- The length modifier. -/
def modifier : Conv → List Char
  | .int m _ => m.render
  | .b | .p | .c | .s => []

/-- The conversion character. -/
def letter : Conv → Char
  | .int _ t => t.char
  | .b => 'b'
  | .p => 'p'
  | .c => 'c'
  | .s => 's'

/-- How a conversion is written. -/
def render (k : Conv) : List Char := k.modifier ++ [k.letter]

/-- The width of the argument that the length modifier names. -/
def bits : Conv → ℕ
  | .int .none _ | .b | .c => 32
  | .int .h _ => 16
  | .int .hh _ => 8
  | .int .l _ | .int .ll _ | .p | .s => 64

/-- The string that the argument `v` points to, if the conversion prints it. -/
def pointee (a : Call) (v : Word) : Conv → Option (List Char)
  | .s => some (a.str v)
  | .int _ _ | .b | .p | .c => none

/-- The unsigned conversions of short types: `hu`, `hx`, `hX`, `hhu`, `hhx` and `hhX`. -/
def ShortUnsigned : Conv → Prop
  | .int m t => (m = .h ∨ m = .hh) ∧ t ≠ .d
  | .b | .p | .c | .s => False

instance : DecidablePred ShortUnsigned := fun k =>
  match k with
  | .int m t => inferInstanceAs (Decidable ((m = .h ∨ m = .hh) ∧ t ≠ .d))
  | .b | .p | .c | .s => inferInstanceAs (Decidable False)

/-- The member of the union that the argument is stored to. -/
def write : Conv → Member
  | .int .none .d | .b => .i
  | .int .none _ => .u
  | .int .h .d => .hi
  | .int .h _ => .hu
  | .int .hh .d => .hhi
  | .int .hh _ => .hhu
  | .int .l .d => .li
  | .int .l _ => .lu
  | .int .ll .d => .lli
  | .int .ll _ | .p => .llu
  | .c => .c
  | .s => .s

/-- The member of the union that is printed. -/
def read (k : Conv) : Member := if k.ShortUnsigned then .lli else k.write

/-- What is printed of the member that is read. -/
def out (a : Call) (width : ℤ) (fl : Flags) (w : Word) : Conv → Except Fault Out
  | .int _ .d => simpleOutputi w 10 true width fl 'a'
  | .int _ .u => simpleOutputi w 10 false width fl 'a'
  | .int _ .x => simpleOutputi w 16 false width fl 'a'
  | .int _ .X => simpleOutputi w 16 false width fl 'A'
  | .b => simpleOutputi w 2 true width fl 'a'
  | .p => simpleOutputi w 16 false width fl 'a'
  | .c => .ok (prints (scr w) width fl)
  | .s => .ok (prints (a.string w) width fl)

end Conv

/-- The width of a specification: `*`, or digits the first of which is not the flag `0`. -/
inductive Width where
  | star
  | digits (ds : List (Fin 10)) (h : ds.head? ≠ some 0)
deriving DecidableEq, Repr

/-- The character of a decimal digit. -/
def decimal (d : Fin 10) : Char := Char.ofNat (d + '0'.toNat)

/-- The width after one more digit. -/
def widthStep (w : ℤ) (d : Fin 10) : ℤ := int32 (int32 (w * 10) + d.val)

namespace Width

/-- No width. -/
def absent : Width := .digits [] (Option.some_ne_none 0).symm

/-- How a width is written. -/
def render : Width → List Char
  | .star => ['*']
  | .digits ds _ => ds.map decimal

/-- The value of the width, where `ap` is the next argument. -/
def value (a : Call) (ap : ℕ) : Width → ℤ
  | .star => ((a.args ap).setWidth 32).toInt
  | .digits ds _ => ds.foldl widthStep 0

/-- The number of arguments the width takes. -/
def slots : Width → ℕ
  | .star => 1
  | .digits _ _ => 0

/-- The argument that the width takes. -/
def operand (a : Call) (ap : ℕ) : Width → Option (BitVec 32)
  | .star => some ((a.args ap).setWidth 32)
  | .digits _ _ => none

end Width

/-- A conversion specification. -/
structure Spec where
  minus : Bool
  zeros : ℕ
  width : Width
  conv : Conv
deriving DecidableEq, Repr

namespace Spec

/-- A specification without its `%`. -/
def inner (s : Spec) : List Char :=
  (if s.minus then ['-'] else []) ++
    (List.replicate s.zeros '0' ++ (s.width.render ++ s.conv.render))

/-- How a specification is written. -/
def render (s : Spec) : List Char := '%' :: s.inner

/-- The flags. -/
def flags (s : Spec) : Flags := ⟨s.zeros != 0, s.minus⟩

end Spec

/-- A piece of a format: a character other than `%`, the text `%%`, or a conversion specification. -/
inductive Item where
  | lit (c : Char) (h : c ≠ '\x00' ∧ c ≠ '%')
  | percent
  | spec (s : Spec)

/-- How a piece is written. -/
def Item.render : Item → List Char
  | .lit c _ => [c]
  | .percent => ['%', '%']
  | .spec s => s.render

/-- A format of text and complete conversion specifications. -/
def Complete (f : List Char) : Prop := ∃ items : List Item, f = items.flatMap Item.render

/-! ## Reading a specification back -/

variable {a : Call} {o : Out} {ap : ℕ} {u : Word} {f : List Char}

/-- A character that goes on with a specification after its `%`, other than the flag `-`. -/
structure Starts (c : Char) : Prop where
  nul : c ≠ '\x00'
  percent : c ≠ '%'
  minus : c ≠ '-'

/-- A character that ends the flags and the width. -/
structure Stops (c : Char) : Prop extends Starts c where
  star : c ≠ '*'
  digit : ¬('0' ≤ c ∧ c ≤ '9')

/-- What stops the width is not a zero. -/
lemma Stops.zero {c : Char} (h : Stops c) : c ≠ '0' := by
  intro e
  subst e
  exact h.digit (by decide)

/-- The first character of a sequence. -/
lemma peek_append {g : List Char} (h : g ≠ []) : peek (g ++ f) = peek g := by
  cases g with
  | nil => exact absurd rfl h
  | cons c g => rfl

/-- A conversion ends the flags and the width. -/
lemma Conv.stops (k : Conv) (f : List Char) : Stops (peek (k.render ++ f)) := by
  have hne : k.render ≠ [] := List.append_ne_nil_of_right_ne_nil _ (List.cons_ne_nil _ _)
  rw [peek_append hne]
  cases k with
  | int m t => cases m <;> cases t <;> exact ⟨⟨by decide, by decide, by decide⟩, by decide, by decide⟩
  | b => exact ⟨⟨by decide, by decide, by decide⟩, by decide, by decide⟩
  | p => exact ⟨⟨by decide, by decide, by decide⟩, by decide, by decide⟩
  | c => exact ⟨⟨by decide, by decide, by decide⟩, by decide, by decide⟩
  | s => exact ⟨⟨by decide, by decide, by decide⟩, by decide, by decide⟩

/-- The digits are between `0` and `9`. -/
lemma decimal_isDigit (d : Fin 10) : '0' ≤ decimal d ∧ decimal d ≤ '9' := by
  revert d
  decide

/-- A digit may start a width. -/
lemma decimal_starts (d : Fin 10) : Starts (decimal d) := by
  constructor <;> revert d <;> decide

/-- A digit is not a star. -/
lemma decimal_ne_star (d : Fin 10) : decimal d ≠ '*' := by
  revert d
  decide

/-- The value of a digit. -/
lemma decimal_toNat (d : Fin 10) : ((decimal d).toNat : ℤ) - '0'.toNat = (d : ℕ) := by
  revert d
  decide

/-- Which digit is zero. -/
lemma decimal_eq_zero_iff (d : Fin 10) : decimal d = '0' ↔ d = 0 := by
  revert d
  decide

/-- The loop over the digits reads all of them. -/
lemma scanDigits_append (width : ℤ) (ds : List (Fin 10)) (hf : ¬('0' ≤ peek f ∧ peek f ≤ '9')) :
    scanDigits width (ds.map decimal ++ f) = (ds.foldl widthStep width, f) := by
  induction ds generalizing width with
  | nil =>
    cases f with
    | nil => rfl
    | cons c f => exact if_neg hf
  | cons d ds ih =>
    rw [List.map_cons, List.cons_append, scanDigits, if_pos (decimal_isDigit d), decimal_toNat, ih,
      List.foldl_cons, widthStep]

/-- A written width is read back. -/
lemma scanWidth_render (w : Width) (hf : Stops (peek f)) :
    scanWidth a ap (w.render ++ f) = (w.value a ap, ap + w.slots, f) := by
  cases w with
  | star => rfl
  | digits ds h =>
    have hstar : peek (ds.map decimal ++ f) ≠ '*' := by
      cases ds with
      | nil => exact hf.star
      | cons d ds => exact decimal_ne_star d
    rw [scanWidth, Width.render, if_neg hstar, scanDigits_append 0 ds hf.digit]
    rfl

/-- Written zeros are read back. -/
lemma scanZeros_replicate (z : Bool) (n : ℕ) (hf : peek f ≠ '0') :
    scanZeros z (List.replicate n '0' ++ f) = (z || n != 0, f) := by
  induction n generalizing z with
  | zero =>
    cases f with
    | nil => exact Prod.ext (Bool.or_false z).symm rfl
    | cons c f =>
      have e : scanZeros z (c :: f) = (z, c :: f) := if_neg hf
      exact e.trans (Prod.ext (Bool.or_false z).symm rfl)
  | succ n ih =>
    rw [List.replicate_succ, List.cons_append, scanZeros, if_pos rfl, ih]
    exact Prod.ext (Bool.or_true z).symm rfl

/-- After its zeros a width does not start with a zero. -/
lemma Width.peek_ne_zero (w : Width) (hf : Stops (peek f)) : peek (w.render ++ f) ≠ '0' := by
  cases w with
  | star => exact (by decide : '*' ≠ '0')
  | digits ds h =>
    cases ds with
    | nil => exact hf.zero
    | cons d ds => exact fun e => h (congrArg some ((decimal_eq_zero_iff d).1 e))

/-- A written width starts as widths do. -/
lemma Width.starts (w : Width) (hf : Stops (peek f)) : Starts (peek (w.render ++ f)) := by
  cases w with
  | star => exact (⟨by decide, by decide, by decide⟩ : Starts '*')
  | digits ds h =>
    cases ds with
    | nil => exact hf.toStarts
    | cons d ds => exact decimal_starts d

/-- Zeros before a width start as widths do. -/
lemma starts_replicate (n : ℕ) (hf : Starts (peek f)) :
    Starts (peek (List.replicate n '0' ++ f)) := by
  cases n with
  | zero => exact hf
  | succ n => exact (⟨by decide, by decide, by decide⟩ : Starts '0')

/-- The parts of a written specification. -/
lemma Spec.inner_append (s : Spec) (f : List Char) :
    s.inner ++ f = (if s.minus then ['-'] else []) ++
      (List.replicate s.zeros '0' ++ (s.width.render ++ (s.conv.render ++ f))) := by
  simp only [Spec.inner, List.append_assoc]

/-- The part of a specification after the flag `-`. -/
lemma Spec.starts (s : Spec) (f : List Char) :
    Starts (peek (List.replicate s.zeros '0' ++ (s.width.render ++ (s.conv.render ++ f)))) :=
  starts_replicate _ (s.width.starts (s.conv.stops f))

/-- The `%` of a specification does not stand for itself. -/
lemma Spec.peek_inner (s : Spec) (f : List Char) :
    peek (s.inner ++ f) ≠ '\x00' ∧ peek (s.inner ++ f) ≠ '%' := by
  rw [s.inner_append]
  cases s.minus with
  | true => exact ⟨(by decide : '-' ≠ '\x00'), (by decide : '-' ≠ '%')⟩
  | false => exact ⟨(s.starts f).nul, (s.starts f).percent⟩

/-- The scanner finds the flags and the width of a specification. -/
lemma conversion_inner (s : Spec) :
    conversion a ⟨s.inner ++ f, o, ap, u⟩ =
      formatSwitch a (s.width.value a ap) s.flags ⟨s.conv.render ++ f, o, ap + s.width.slots, u⟩ := by
  have hstop := s.conv.stops f
  have hzero := s.width.peek_ne_zero hstop
  have hminus : scanMinus (s.inner ++ f) =
      (s.minus, List.replicate s.zeros '0' ++ (s.width.render ++ (s.conv.render ++ f))) := by
    rw [s.inner_append]
    cases s.minus with
    | true => rfl
    | false => exact if_neg (s.starts f).minus
  rw [conversion]
  simp only [hminus, scanZeros_replicate false s.zeros hzero, scanWidth_render s.width hstop]
  rfl

/-- What the `switch` does on a conversion. -/
lemma formatSwitch_render (k : Conv) {width : ℤ} {fl : Flags} :
    formatSwitch a width fl ⟨k.render ++ f, o, ap, u⟩ = (do
      let o' ← k.out a width fl (load (store u k.write (a.args ap)) k.read)
      .ok ⟨k.letter :: f, o.append o', ap + 1, store u k.write (a.args ap)⟩) := by
  cases k with
  | int m t => cases m <;> cases t <;> rfl
  | b => rfl
  | p => rfl
  | c => rfl
  | s => rfl

/-- A letter is not NUL. -/
lemma Letter.char_ne_nul (t : Letter) : t.char ≠ '\x00' := by
  cases t <;> decide

/-- The last letter of a conversion is not NUL. -/
lemma Conv.letter_ne_nul (k : Conv) : k.letter ≠ '\x00' := by
  cases k with
  | int m t => exact t.char_ne_nul
  | b => decide
  | p => decide
  | c => decide
  | s => decide

/-- `advance` steps over a character. -/
lemma advance_cons {c : Char} (hc : c ≠ '\x00') :
    advance ⟨c :: f, o, ap, u⟩ = .ok ⟨f, o, ap, u⟩ := by
  have e : next (c :: f) = .ok f := if_neg hc
  rw [advance, e, ok_bind]

/-- An iteration of the loop at a conversion specification. -/
lemma body_render (s : Spec) :
    body a ⟨s.render ++ f, o, ap, u⟩ = (do
      let u' := store u s.conv.write (a.args (ap + s.width.slots))
      let o' ← s.conv.out a (s.width.value a ap) s.flags (load u' s.conv.read)
      .ok ⟨f, o.append o', ap + s.width.slots + 1, u'⟩) := by
  obtain ⟨hnul, hpercent⟩ := s.peek_inner f
  have hpeek : peek (s.render ++ f) = '%' := rfl
  have htail : (s.render ++ f).tail = s.inner ++ f := rfl
  rw [body, if_pos hpeek]
  simp only [htail, if_neg hnul, if_neg hpercent, conversion_inner, formatSwitch_render, bind_assoc,
    ok_bind]
  refine bind_congr fun o' => ?_
  exact advance_cons s.conv.letter_ne_nul

end KingdoKernel.Printk
