import KingdoKernel.Buddy.Basic
import KingdoKernel.Lib.Machine

/-!
# `printk`

Model of `lib/printk.c`. A C string is the list of its characters, its terminating NUL the end of the
list, and a pointer into the format is what is left of the format. Moving `format` past the NUL is
`Fault.wild`: the loop reads the character there. So is a store in front of `print_buf`.

On AArch64 an argument of `printk` takes a slot of eight bytes, so `va_list` is the stream of the slots
and the index of the next one. The union `u` is one little-endian word: a member is its low bits, and
storing one leaves the other bits as they were. An `int` wraps around at 32 bits; the count `pc` of
characters is not truncated. Characters sent to the UART and to a buffer are the same list.
-/

namespace KingdoKernel.Printk

/-- A slot of the argument list, and the union `u`. -/
abbrev Word : Type := BitVec 64

/-- `PRINT_BUF_LEN`. -/
def printBufLen : ℕ := 64

/-- The value of an `int`. -/
def int32 (x : ℤ) : ℤ := x.bmod (2 ^ 32)

/-- `enum flags`, the two bits of `flags`. -/
structure Flags where
  padZero : Bool
  padRight : Bool
deriving DecidableEq, Repr

/-- The characters given to `simple_outputchar`, and the count `pc`. -/
structure Out where
  text : List Char
  pc : ℕ
deriving DecidableEq, Repr

namespace Out

/-- Nothing printed yet. -/
def empty : Out := ⟨[], 0⟩

/-- `simple_outputchar`. -/
def outputchar (o : Out) (c : Char) : Out := ⟨o.text ++ [c], o.pc⟩

/-- `simple_outputchar` and `++pc`. -/
def put (o : Out) (c : Char) : Out := ⟨(o.outputchar c).text, o.pc + 1⟩

/-- The output of a call and the count it returns, `pc += f(out, ...)`. -/
def append (o o' : Out) : Out := ⟨o.text ++ o'.text, o.pc + o'.pc⟩

end Out

/-- `for (; width > 0; --width)` in `prints`. -/
def padLoop (padchar : Char) (width : ℤ) (o : Out) : Out :=
  (fun o => o.put padchar)^[width.toNat] o

/-- `prints`. -/
def prints (string : List Char) (width : ℤ) (fl : Flags) : Out :=
  let len : ℤ := string.length
  let padchar := if 0 < width ∧ fl.padZero then '0' else ' '
  let width := if 0 < width then (if width ≤ len then 0 else width - len) else width
  let left := if fl.padRight then Out.empty else padLoop padchar width .empty
  let out := string.foldl Out.put left
  if fl.padRight then padLoop padchar width out else out

/-- The character of the digit `t`. -/
def digitChar (letbase : Char) (t : ℕ) : Char :=
  let t := if 10 ≤ t then t + (letbase.toNat - '0'.toNat - 10) else t
  Char.ofNat (t + '0'.toNat)

/-- `while (u)` in `simple_outputi`: `s` is the index in `print_buf` of the first character of `text`. -/
def digitLoop (base : ℕ) (letbase : Char) (s u : ℕ) (text : List Char) :
    Except Fault (ℕ × List Char) :=
  if u = 0 then .ok (s, text)
  else match s with
    | 0 => .error .wild
    | s + 1 => digitLoop base letbase s (u / base) (digitChar letbase (u % base) :: text)

/-- `*--s = c`. -/
def pushFront (c : Char) : ℕ × List Char → Except Fault (ℕ × List Char)
  | (0, _) => .error .wild
  | (s + 1, text) => .ok (s, c :: text)

/-- `simple_outputi`. -/
def simpleOutputi (i : Word) (base : ℕ) (sign : Bool) (width : ℤ) (fl : Flags) (letbase : Char) :
    Except Fault Out :=
  if i = 0 then .ok (prints ['0'] width fl)
  else do
    let neg := sign && base == 10 && i.slt 0
    let u := if neg then -i else i
    let s ← digitLoop base letbase (printBufLen - 1) u.toNat []
    if neg then
      if width ≠ 0 ∧ fl.padZero then
        .ok ((Out.empty.put '-').append (prints s.2 (int32 (width - 1)) fl))
      else do
        let s ← pushFront '-' s
        .ok (prints s.2 width fl)
    else .ok (prints s.2 width fl)

/-- The members of the union `u`. -/
inductive Member where
  | c | s | i | u | li | lu | lli | llu | hi | hu | hhi | hhu | p
deriving DecidableEq, Repr

/-- The width of a member. -/
def Member.bits : Member → ℕ
  | .c | .hhi | .hhu => 8
  | .hi | .hu => 16
  | .i | .u => 32
  | .s | .li | .lu | .lli | .llu | .p => 64

/-- Whether a member is of a signed type; `char` is unsigned on AArch64. -/
def Member.signed : Member → Bool
  | .i | .li | .lli | .hi | .hhi => true
  | .c | .s | .u | .lu | .llu | .hu | .hhu | .p => false

/-- `u.m = v`. No `va_arg` of the source names a type narrower than the member it is stored to. -/
def store (u : Word) (m : Member) (v : Word) : Word :=
  u >>> m.bits <<< m.bits ||| (v.setWidth m.bits).setWidth 64

/-- `u.m`, converted to `long`. -/
def load (u : Word) (m : Member) : Word :=
  if m.signed then (u.setWidth m.bits).signExtend 64 else (u.setWidth m.bits).setWidth 64

/-- A case of an integer: `u.write = va_arg(..)`, and `simple_outputi` of `u.read`. -/
structure IntCase where
  write : Member
  read : Member
  base : ℕ
  sign : Bool
  letbase : Char
deriving DecidableEq, Repr

/-- The integers of `switch (*format)`. -/
def casePlain : Char → Option IntCase
  | 'd' => some ⟨.i, .i, 10, true, 'a'⟩
  | 'b' => some ⟨.i, .i, 2, true, 'a'⟩
  | 'u' => some ⟨.u, .u, 10, false, 'a'⟩
  | 'p' => some ⟨.llu, .llu, 16, false, 'a'⟩
  | 'x' => some ⟨.u, .u, 16, false, 'a'⟩
  | 'X' => some ⟨.u, .u, 16, false, 'A'⟩
  | _ => none

/-- The integers after `l`. -/
def caseL : Char → Option IntCase
  | 'd' => some ⟨.li, .li, 10, true, 'a'⟩
  | 'u' => some ⟨.lu, .lu, 10, false, 'a'⟩
  | 'x' => some ⟨.lu, .lu, 16, false, 'a'⟩
  | 'X' => some ⟨.lu, .lu, 16, false, 'A'⟩
  | _ => none

/-- The integers after `ll`. -/
def caseLL : Char → Option IntCase
  | 'd' => some ⟨.lli, .lli, 10, true, 'a'⟩
  | 'u' => some ⟨.llu, .llu, 10, false, 'a'⟩
  | 'x' => some ⟨.llu, .llu, 16, false, 'a'⟩
  | 'X' => some ⟨.llu, .llu, 16, false, 'A'⟩
  | _ => none

/-- The integers after `h`. The unsigned ones are stored to `hu` and read from `lli`. -/
def caseH : Char → Option IntCase
  | 'd' => some ⟨.hi, .hi, 10, true, 'a'⟩
  | 'u' => some ⟨.hu, .lli, 10, false, 'a'⟩
  | 'x' => some ⟨.hu, .lli, 16, false, 'a'⟩
  | 'X' => some ⟨.hu, .lli, 16, false, 'A'⟩
  | _ => none

/-- The integers after `hh`. The unsigned ones are stored to `hhu` and read from `lli`. -/
def caseHH : Char → Option IntCase
  | 'd' => some ⟨.hhi, .hhi, 10, true, 'a'⟩
  | 'u' => some ⟨.hhu, .lli, 10, false, 'a'⟩
  | 'x' => some ⟨.hhu, .lli, 16, false, 'a'⟩
  | 'X' => some ⟨.hhu, .lli, 16, false, 'A'⟩
  | _ => none

/-- A call of `printk`: the format, the argument slots, the strings that the pointers among them point
to, and what the union holds before it is first written. -/
structure Call where
  format : List Char
  args : ℕ → Word
  str : Word → List Char
  u : Word

/-- The variables of `simple_vsprintf`. -/
structure Printer where
  format : List Char
  out : Out
  ap : ℕ
  u : Word

/-- `*format`. -/
def peek (f : List Char) : Char := f.headD '\x00'

/-- `++format`. -/
def next (f : List Char) : Except Fault (List Char) :=
  if peek f = '\x00' then .error .wild else .ok f.tail

/-- The `-` flag. -/
def scanMinus (f : List Char) : Bool × List Char :=
  if peek f = '-' then (true, f.tail) else (false, f)

/-- `while (*format == '0')`. -/
def scanZeros (z : Bool) : List Char → Bool × List Char
  | [] => (z, [])
  | c :: f => if c = '0' then scanZeros true f else (z, c :: f)

/-- The loop over the digits of the width. -/
def scanDigits (width : ℤ) : List Char → ℤ × List Char
  | [] => (width, [])
  | c :: f =>
    if '0' ≤ c ∧ c ≤ '9' then
      scanDigits (int32 (int32 (width * 10) + (c.toNat - '0'.toNat : ℤ))) f
    else (width, c :: f)

variable (a : Call)

/-- The width, with `*` from the argument list. -/
def scanWidth (ap : ℕ) (f : List Char) : ℤ × ℕ × List Char :=
  if peek f = '*' then (((a.args ap).setWidth 32).toInt, ap + 1, f.tail)
  else
    let r := scanDigits 0 f
    (r.1, ap, r.2)

/-- One case of a conversion to an integer. -/
def intCase (width : ℤ) (fl : Flags) (k : IntCase) (p : Printer) : Except Fault Printer := do
  let u := store p.u k.write (a.args p.ap)
  let o ← simpleOutputi (load u k.read) k.base k.sign width fl k.letbase
  .ok ⟨p.format, p.out.append o, p.ap + 1, u⟩

/-- A `switch` whose cases are integers and whose `default` does nothing. -/
def intSwitch (cases : Char → Option IntCase) (width : ℤ) (fl : Flags) (p : Printer) :
    Except Fault Printer :=
  match cases (peek p.format) with
  | some k => intCase a width fl k p
  | none => .ok p

/-- The string `scr`, which is empty if the character is a NUL. -/
def scr (c : Word) : List Char := if c = 0 then [] else [Char.ofNat c.toNat]

/-- `u.s ? u.s : "(null)"`. -/
def Call.string (s : Word) : List Char := if s = 0 then "(null)".toList else a.str s

/-- `case ('c')`. -/
def charCase (width : ℤ) (fl : Flags) (p : Printer) : Printer :=
  let u := store p.u .c (a.args p.ap)
  ⟨p.format, p.out.append (prints (scr (load u .c)) width fl), p.ap + 1, u⟩

/-- `case ('s')`. -/
def strCase (width : ℤ) (fl : Flags) (p : Printer) : Printer :=
  let u := store p.u .s (a.args p.ap)
  ⟨p.format, p.out.append (prints (a.string (load u .s)) width fl), p.ap + 1, u⟩

/-- `case ('l')` and `case ('h')`: a modifier that may be doubled. -/
def modifierCase (m : Char) (once twice : Char → Option IntCase) (width : ℤ) (fl : Flags)
    (p : Printer) : Except Fault Printer :=
  let p := { p with format := p.format.tail }
  if peek p.format = m then intSwitch a twice width fl { p with format := p.format.tail }
  else intSwitch a once width fl p

/-- `switch (*format)`. -/
def formatSwitch (width : ℤ) (fl : Flags) (p : Printer) : Except Fault Printer :=
  match peek p.format with
  | 'c' => .ok (charCase a width fl p)
  | 's' => .ok (strCase a width fl p)
  | 'l' => modifierCase a 'l' caseL caseLL width fl p
  | 'h' => modifierCase a 'h' caseH caseHH width fl p
  | _ => intSwitch a casePlain width fl p

/-- A conversion, from the character after `%` on. -/
def conversion (p : Printer) : Except Fault Printer :=
  let minus := scanMinus p.format
  let zeros := scanZeros false minus.2
  let width := scanWidth a p.ap zeros.2
  formatSwitch a width.1 ⟨zeros.1, minus.1⟩ ⟨width.2.2, p.out, width.2.1, p.u⟩

/-- The character `*format` as it is, a carriage return before a line feed. -/
def literal (p : Printer) : Printer :=
  let out := if peek p.format = '\n' then p.out.outputchar '\r' else p.out
  { p with out := out.put (peek p.format) }

/-- `++format` at the end of an iteration. -/
def advance (p : Printer) : Except Fault Printer := do
  let f ← next p.format
  .ok { p with format := f }

/-- The body of the loop of `simple_vsprintf` and `++format`. After the `break` at a `%` that ends the
format the loop is left, as it is at the NUL. -/
def body (p : Printer) : Except Fault Printer :=
  if peek p.format = '%' then
    let p := { p with format := p.format.tail }
    if peek p.format = '\x00' then .ok p
    else if peek p.format = '%' then advance (literal p)
    else do
      let p ← conversion a p
      advance p
  else advance (literal p)

/-- The variables at the start of the loop. -/
def start : Printer := ⟨a.format, .empty, 0, a.u⟩

/-- The states of a call at the head of the loop. -/
inductive Reaches : Printer → Prop where
  | start :
    Reaches (start a)
  | step {p q} :
    Reaches p →
    peek p.format ≠ '\x00' →
    body a p = .ok q →
    Reaches q

/-! ## The loop ends

Every function of the scanner leaves a suffix of the format it is given. -/

variable {a : Call} {p q : Printer} {width : ℤ} {fl : Flags}

/-- Only the end of a format without NUL reads as NUL. -/
lemma peek_eq_nul_iff {f : List Char} (h : '\x00' ∉ f) : peek f = '\x00' ↔ f = [] := by
  cases f with
  | nil => exact ⟨fun _ => rfl, fun _ => rfl⟩
  | cons c f =>
    refine ⟨fun e => ?_, nofun⟩
    exact absurd (show c = '\x00' from e) (fun e => h (e ▸ List.mem_cons_self))

/-- The loop over `-` moves towards the end. -/
lemma scanMinus_suffix (f : List Char) : (scanMinus f).2 <:+ f := by
  rw [scanMinus]
  split
  · exact List.tail_suffix f
  · exact List.suffix_refl f

/-- The loop over `0` moves towards the end. -/
lemma scanZeros_suffix (z : Bool) (f : List Char) : (scanZeros z f).2 <:+ f := by
  induction f generalizing z with
  | nil => exact List.suffix_refl _
  | cons c f ih =>
    rw [scanZeros]
    split
    · exact (ih true).trans (List.suffix_cons c f)
    · exact List.suffix_refl _

/-- The loop over digits moves towards the end. -/
lemma scanDigits_suffix (width : ℤ) (f : List Char) : (scanDigits width f).2 <:+ f := by
  induction f generalizing width with
  | nil => exact List.suffix_refl _
  | cons c f ih =>
    rw [scanDigits]
    split
    · exact (ih _).trans (List.suffix_cons c f)
    · exact List.suffix_refl _

/-- Reading the width moves towards the end. -/
lemma scanWidth_suffix (a : Call) (ap : ℕ) (f : List Char) : (scanWidth a ap f).2.2 <:+ f := by
  rw [scanWidth]
  split
  · exact List.tail_suffix f
  · exact scanDigits_suffix 0 f

/-- Printing an integer does not move. -/
lemma intSwitch_format {cases : Char → Option IntCase} (h : intSwitch a cases width fl p = .ok q) :
    q.format = p.format := by
  rw [intSwitch] at h
  split at h
  · obtain ⟨o, -, h⟩ := bind_eq_ok.1 h
    cases h
    rfl
  · cases h
    rfl

/-- Reading a length modifier moves towards the end. -/
lemma modifierCase_suffix {m : Char} {once twice : Char → Option IntCase}
    (h : modifierCase a m once twice width fl p = .ok q) : q.format <:+ p.format := by
  rw [modifierCase] at h
  split at h
  · rw [intSwitch_format h]
    exact (List.tail_suffix _).trans (List.tail_suffix _)
  · rw [intSwitch_format h]
    exact List.tail_suffix _

/-- Reading a conversion moves towards the end. -/
lemma formatSwitch_suffix (h : formatSwitch a width fl p = .ok q) : q.format <:+ p.format := by
  rw [formatSwitch] at h
  split at h
  · cases h
    exact List.suffix_refl _
  · cases h
    exact List.suffix_refl _
  · exact modifierCase_suffix h
  · exact modifierCase_suffix h
  · rw [intSwitch_format h]

/-- A whole specification moves towards the end. -/
lemma conversion_suffix (h : conversion a p = .ok q) : q.format <:+ p.format :=
  calc q.format <:+ _ := formatSwitch_suffix h
    _ <:+ _ := scanWidth_suffix a _ _
    _ <:+ _ := scanZeros_suffix false _
    _ <:+ p.format := scanMinus_suffix _

/-- One step towards the end. -/
lemma tail_length {f : List Char} (hf : peek f ≠ '\x00') : f.tail.length < f.length := by
  cases f with
  | nil => exact absurd rfl hf
  | cons c f => exact Nat.lt_succ_self _

/-- `advance` moves by at least one character. -/
lemma advance_length (h : advance p = .ok q) : q.format.length < p.format.length := by
  obtain ⟨f, hf, h⟩ := bind_eq_ok.1 h
  cases h
  rw [next] at hf
  split at hf
  · cases hf
  · next hp =>
    cases hf
    exact tail_length hp

/-- An iteration of the loop takes at least one character. -/
lemma body_length (hp : peek p.format ≠ '\x00') (h : body a p = .ok q) :
    q.format.length < p.format.length := by
  have htail := tail_length hp
  rw [body] at h
  split at h
  · dsimp only at h
    split_ifs at h
    · cases h
      exact htail
    · exact (advance_length h).trans htail
    · obtain ⟨p', h', h⟩ := bind_eq_ok.1 h
      have hp' := (conversion_suffix h').length_le
      exact ((advance_length h).trans_le hp').trans htail
  · exact advance_length (p := literal p) h

/-- The loop of `simple_vsprintf`. -/
def vsprintfLoop (a : Call) (p : Printer) : Except Fault Printer :=
  if peek p.format = '\x00' then .ok p
  else match _h : body a p with
    | .ok q => vsprintfLoop a q
    | .error e => .error e
termination_by p.format.length
decreasing_by exact body_length ‹_› ‹_›

/-- `simple_vsprintf`. -/
def simpleVsprintf (a : Call) : Except Fault Out := do
  let p ← vsprintfLoop a (start a)
  .ok p.out

/-! ## The union -/

/-- The low bits of the union after a store are those of the value stored. -/
lemma setWidth_store (u : Word) (m : Member) (v : Word) :
    (store u m v).setWidth m.bits = v.setWidth m.bits := by
  have hm : m.bits ≤ 64 := by cases m <;> decide
  apply BitVec.eq_of_getLsbD_eq
  intro i hi
  simp [store, hi, show i < 64 by omega]

/-- Only the low bits of the union are read. -/
lemma load_congr {u v : Word} {m : Member} (h : u.setWidth m.bits = v.setWidth m.bits) : load u m = load v m := by
  rw [load, load, h]

/-- A member reads as the value stored to it, whatever the union held before. -/
lemma load_store_self (u : Word) (m : Member) (v : Word) : load (store u m v) m = load v m :=
  load_congr (setWidth_store u m v)

end KingdoKernel.Printk
