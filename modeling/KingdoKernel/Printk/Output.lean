import KingdoKernel.Lib.Numeral
import KingdoKernel.Printk.Format

/-!
# The text of a number

What `prints` and `simple_outputi` print. `prints_eq`: the string with its padding on one side, and a
count that is the length of the text. `outputi_numeral`: numbers are printed as their canonical numerals,
padded to the width. `both_flags_denote_iff`: with the flags `-` and `0` together the padding changes the
number. `buffer_kept_iff`: of all numbers only the binary ones of negative arguments do not fit
`print_buf`.
-/

namespace KingdoKernel.Printk

/-- Putting one character `n` times. -/
lemma iterate_put (c : Char) (n : ℕ) (o : Out) :
    (fun o : Out => o.put c)^[n] o = ⟨o.text ++ List.replicate n c, o.pc + n⟩ := by
  induction n generalizing o with
  | zero => rw [List.replicate_zero, List.append_nil]; rfl
  | succ n ih =>
    rw [Function.iterate_succ_apply, ih, List.replicate_succ]
    simp only [Out.put, Out.outputchar, List.append_assoc, List.singleton_append]
    rw [Nat.add_right_comm, Nat.add_assoc]

/-- Putting the characters of a string. -/
lemma foldl_put (string : List Char) (o : Out) :
    string.foldl Out.put o = ⟨o.text ++ string, o.pc + string.length⟩ := by
  induction string generalizing o with
  | nil => rw [List.foldl_nil, List.append_nil]; rfl
  | cons c string ih =>
    rw [List.foldl_cons, ih]
    simp only [Out.put, Out.outputchar, List.append_assoc, List.singleton_append, List.length_cons]
    rw [Nat.add_right_comm, Nat.add_assoc]

/-- The padding of `prints`. -/
def padding (len : ℕ) (width : ℤ) (fl : Flags) : List Char :=
  List.replicate (width - len).toNat (if fl.padZero then '0' else ' ')

/-- `prints` puts the padding on one side of the string and counts what it prints. -/
lemma prints_eq (string : List Char) (width : ℤ) (fl : Flags) :
    let pad := padding string.length width fl
    prints string width fl =
      ⟨if fl.padRight then string ++ pad else pad ++ string, pad.length + string.length⟩ := by
  have hwidth : (if 0 < width then if width ≤ string.length then 0 else width - string.length
      else width).toNat = (width - string.length).toNat := by
    split_ifs <;> omega
  have hchar : List.replicate (width - string.length).toNat
      (if 0 < width ∧ fl.padZero then '0' else ' ') = padding string.length width fl := by
    by_cases hpos : 0 < width
    · simp only [hpos, true_and, padding]
    · rw [padding, Int.toNat_of_nonpos (by omega), List.replicate_zero, List.replicate_zero]
  have hlen : (padding string.length width fl).length = (width - string.length).toNat :=
    List.length_replicate
  simp only [prints, padLoop, iterate_put, foldl_put, hwidth, hchar, hlen, Out.empty]
  cases fl.padRight with
  | true => simp [Nat.add_comm]
  | false => simp

/-- The characters of the padding. -/
lemma mem_padding {c : Char} {len : ℕ} {width : ℤ} {fl : Flags} (h : c ∈ padding len width fl) :
    c = '0' ∨ c = ' ' := by
  rw [padding] at h
  rw [List.eq_of_mem_replicate h]
  cases fl.padZero with
  | true => exact .inl rfl
  | false => exact .inr rfl

/-- The characters that `prints` prints. -/
lemma mem_prints_text {c : Char} {string : List Char} {width : ℤ} {fl : Flags} :
    c ∈ (prints string width fl).text ↔ c ∈ string ∨ c ∈ padding string.length width fl := by
  rw [prints_eq]
  cases fl.padRight with
  | true => exact List.mem_append
  | false => exact List.mem_append.trans or_comm

/-- A number that is not negative is printed as its digits. -/
lemma simpleOutputi_unsigned {i : Word} (hi : i ≠ 0) (base : ℕ) (width : ℤ) (fl : Flags)
    (letbase : Char) :
    simpleOutputi i base false width fl letbase = (do
      let s ← digitLoop base letbase (printBufLen - 1) i.toNat []
      .ok (prints s.2 width fl)) := by
  rw [simpleOutputi, if_neg hi]
  rfl

/-! ## Digits -/

section

open Numeral

variable {i : Word} {base : ℕ} {sign : Bool} {width : ℤ} {fl : Flags} {letbase : Char}

/-- The character of a digit is its figure. -/
lemma digitChar_eq_figure (h : 58 ≤ letbase.toNat) (t : ℕ) :
    digitChar letbase t = figure letbase t := by
  have h0 : '0'.toNat = 48 := rfl
  simp only [digitChar, figure, h0]
  by_cases ht : t < 10
  · rw [if_neg (not_le.2 ht), if_pos ht, Nat.add_comm]
  · rw [if_pos (not_lt.1 ht), if_neg ht]
    congr 1
    omega

/-- The loop over the digits ends at zero. -/
lemma digitLoop_zero (base : ℕ) (letbase : Char) (s : ℕ) (text : List Char) :
    digitLoop base letbase s 0 text = .ok (s, text) := by
  cases s <;> rfl

/-- The loop over the digits stores the figures of the number in front of `text`, if they fit. -/
lemma digitLoop_eq (hb : 1 < base) (hl : 58 ≤ letbase.toNat) (s u : ℕ) (text : List Char) :
    digitLoop base letbase s u text =
      if (Nat.digits base u).length ≤ s then
        .ok (s - (Nat.digits base u).length, figures base letbase u ++ text)
      else .error .wild := by
  induction s generalizing u text with
  | zero =>
    by_cases hu : u = 0
    · rw [hu, digitLoop_zero, figures, Nat.digits_zero]
      rfl
    · have hlen : ¬(Nat.digits base u).length ≤ 0 := by
        rw [Nat.le_zero, List.length_eq_zero_iff]
        exact Nat.digits_ne_nil_iff_ne_zero.2 hu
      rw [digitLoop, if_neg hu, if_neg hlen]
  | succ s ih =>
    by_cases hu : u = 0
    · rw [hu, digitLoop_zero, figures, Nat.digits_zero]
      rfl
    · have hdigits := Nat.digits_def' hb (Nat.pos_of_ne_zero hu)
      have hfigures : figures base letbase u ++ text =
          figures base letbase (u / base) ++ digitChar letbase (u % base) :: text := by
        rw [figures, hdigits, List.reverse_cons, List.map_append, List.append_assoc,
          digitChar_eq_figure hl]
        rfl
      rw [digitLoop, if_neg hu, ih, hfigures, hdigits, List.length_cons]
      simp only [Nat.add_le_add_iff_right, Nat.add_sub_add_right]

/-- Whether a number is printed with a sign. -/
def isNeg (i : Word) (base : ℕ) (sign : Bool) : Bool := sign && base == 10 && i.slt 0

/-- The number whose digits are printed. -/
def magnitude (i : Word) (base : ℕ) (sign : Bool) : ℕ := (if isNeg i base sign then -i else i).toNat

/-- `simple_outputi` of a number other than zero. -/
lemma simpleOutputi_of_ne (hi : i ≠ 0) :
    simpleOutputi i base sign width fl letbase = (do
      let s ← digitLoop base letbase (printBufLen - 1) (magnitude i base sign) []
      if isNeg i base sign then
        if width ≠ 0 ∧ fl.padZero then
          .ok ((Out.empty.put '-').append (prints s.2 (int32 (width - 1)) fl))
        else do
          let s ← pushFront '-' s
          .ok (prints s.2 width fl)
      else .ok (prints s.2 width fl)) := by
  rw [simpleOutputi, if_neg hi]
  rfl

/-- The magnitude of a number other than zero. -/
lemma magnitude_ne_zero (hi : i ≠ 0) (base : ℕ) (sign : Bool) : magnitude i base sign ≠ 0 := by
  have hword : ∀ w : Word, w ≠ 0 → w.toNat ≠ 0 := fun w hw e => hw (BitVec.eq_of_toNat_eq e)
  rw [magnitude]
  split
  · exact hword _ (neg_ne_zero.2 hi)
  · exact hword _ hi

/-- `simple_outputi` when there is room for the digits and a sign. -/
lemma simpleOutputi_eq (width : ℤ) (fl : Flags) (hb : 1 < base) (hl : 58 ≤ letbase.toNat)
    (hlen : (Nat.digits base (magnitude i base sign)).length ≤ 62) :
    simpleOutputi i base sign width fl letbase =
      .ok (if isNeg i base sign then
        if width ≠ 0 ∧ fl.padZero then (Out.empty.put '-').append
          (prints (numeral base letbase (magnitude i base sign)) (int32 (width - 1)) fl)
        else prints ('-' :: numeral base letbase (magnitude i base sign)) width fl
      else prints (numeral base letbase (magnitude i base sign)) width fl) := by
  by_cases hi : i = 0
  · subst hi
    have hneg : isNeg 0 base sign = false := Bool.and_false _
    have hmag : magnitude 0 base sign = 0 := by
      rw [magnitude, hneg]
      rfl
    rw [simpleOutputi, if_pos rfl, hneg, hmag, numeral, if_pos rfl]
    rfl
  · have hloop := digitLoop_eq hb hl (printBufLen - 1) (magnitude i base sign) []
    have hroom : (Nat.digits base (magnitude i base sign)).length ≤ printBufLen - 1 :=
      hlen.trans (by decide)
    -- the sign takes one place more
    obtain ⟨r, hr⟩ : ∃ r, printBufLen - 1 - (Nat.digits base (magnitude i base sign)).length = r + 1 :=
      ⟨62 - (Nat.digits base (magnitude i base sign)).length, by simp only [printBufLen]; omega⟩
    rw [if_pos hroom, List.append_nil, ← numeral_of_pos (magnitude_ne_zero hi base sign), hr] at hloop
    rw [simpleOutputi_of_ne hi, hloop, ok_bind]
    split_ifs <;> rfl

/-- The value of the argument. -/
def value (i : Word) (sign : Bool) : ℤ := if sign then i.toInt else i.toNat

/-- A sign for negative numbers. -/
def signText (v : ℤ) : List Char := if v < 0 then ['-'] else []

/-- The bases of numbers, where only decimal ones are signed. -/
def Kind (base : ℕ) (sign : Bool) : Prop := base = 10 ∨ base = 16 ∧ sign = false

/-- The bases are at least two. -/
lemma Kind.one_lt (h : Kind base sign) : 1 < base := by
  rcases h with rfl | ⟨rfl, -⟩ <;> norm_num

/-- There is room for every number in these bases. -/
lemma Kind.digits_length (h : Kind base sign) (i : Word) :
    (Nat.digits base (magnitude i base sign)).length ≤ 62 := by
  have hlt : magnitude i base sign < 2 ^ 64 := BitVec.isLt _
  rw [Nat.digits_length_le_iff h.one_lt]
  rcases h with rfl | ⟨rfl, -⟩
  · exact hlt.trans (by norm_num)
  · exact hlt.trans (by norm_num)

/-- When a sign is printed. -/
lemma Kind.isNeg_eq (h : Kind base sign) (i : Word) : isNeg i base sign = decide (value i sign < 0) := by
  cases sign with
  | false =>
    have hnn : ¬value i false < 0 := not_lt.2 (Int.natCast_nonneg _)
    rw [decide_eq_false hnn]
    rfl
  | true =>
    rcases h with rfl | ⟨-, h⟩
    · rfl
    · cases h

/-- What is printed after the sign. -/
lemma Kind.magnitude_eq (h : Kind base sign) (i : Word) :
    magnitude i base sign = (value i sign).natAbs := by
  rw [magnitude, h.isNeg_eq]
  have hlt := i.isLt
  cases sign with
  | false =>
    have hnn : ¬value i false < 0 := not_lt.2 (Int.natCast_nonneg _)
    rw [if_neg (by rw [decide_eq_true_iff]; exact hnn)]
    rfl
  | true =>
    have hint : i.toInt = if 2 * i.toNat < 2 ^ 64 then (i.toNat : ℤ) else i.toNat - (2 ^ 64 : ℕ) :=
      BitVec.toInt_eq_toNat_cond i
    simp only [value, if_true, decide_eq_true_iff]
    split_ifs at hint with hc
    · rw [if_neg (by omega), hint]
      rfl
    · rw [if_pos (by omega), BitVec.toNat_neg, hint]
      omega

/-- A numeral and its sign, padded to a width: blanks in front, or behind, or zeros between the two. -/
def padded (sgn digits : List Char) (width : ℤ) (fl : Flags) : List Char :=
  let n := (width - (sgn.length + digits.length)).toNat
  if fl.padRight then sgn ++ digits ++ List.replicate n ' '
  else if fl.padZero then sgn ++ List.replicate n '0' ++ digits
  else List.replicate n ' ' ++ sgn ++ digits

/-- An `int` in range is its own value. -/
lemma int32_eq {x : ℤ} (h1 : -2 ^ 31 ≤ x) (h2 : x < 2 ^ 31) : int32 x = x := by
  rw [int32, Int.bmod_def]
  split_ifs <;> omega

/-- The count of `prints` is the length of its text. -/
lemma prints_pc (string : List Char) (width : ℤ) (fl : Flags) :
    (prints string width fl).pc = (prints string width fl).text.length := by
  rw [prints_eq]
  cases fl.padRight with
  | true => simp [Nat.add_comm]
  | false => simp

/-- `prints` pads a text without a sign. -/
lemma prints_text_eq (digits : List Char) (width : ℤ) {fl : Flags}
    (hfl : ¬(fl.padZero = true ∧ fl.padRight = true)) :
    (prints digits width fl).text = padded [] digits width fl := by
  rw [prints_eq]
  simp only [padded, padding, List.length_nil, List.nil_append, Nat.cast_zero, zero_add]
  cases hr : fl.padRight with
  | true =>
    cases hz : fl.padZero with
    | true => exact absurd ⟨hz, hr⟩ hfl
    | false => rfl
  | false =>
    cases hz : fl.padZero with
    | true => rfl
    | false => simp

/-- `prints` pads a text with a sign, unless zeros are asked for. -/
lemma prints_sign_text_eq (digits : List Char) {width : ℤ} {fl : Flags}
    (hfl : ¬(width ≠ 0 ∧ fl.padZero = true)) :
    (prints ('-' :: digits) width fl).text = padded ['-'] digits width fl := by
  have hlen : ('-' :: digits).length = 1 + digits.length := by rw [List.length_cons, Nat.add_comm]
  rw [prints_eq]
  simp only [padded, padding, hlen, List.length_singleton, Nat.cast_add, Nat.cast_one]
  cases hz : fl.padZero with
  | true =>
    -- nothing is padded to the width zero
    have hwidth : width = 0 := not_not.1 fun h => hfl ⟨h, hz⟩
    have hpad : (width - (1 + digits.length : ℤ)).toNat = 0 := by omega
    rw [hpad]
    cases fl.padRight <;> simp
  | false => cases fl.padRight <;> simp

/-- The sign and the padding of a negative number when zeros are asked for. -/
lemma put_sign_text_eq (digits : List Char) {width : ℤ} {fl : Flags} (hz : fl.padZero = true)
    (hr : fl.padRight = false) (hw : -2 ^ 31 < width) (hw' : width < 2 ^ 31) :
    ((Out.empty.put '-').append (prints digits (int32 (width - 1)) fl)).text =
      padded ['-'] digits width fl := by
  have hpad : width - 1 - (digits.length : ℤ) = width - ((1 : ℕ) + digits.length) := by
    push_cast
    ring
  rw [int32_eq (by omega) (by omega), Out.append, prints_text_eq _ _ (by simp [hr])]
  simp only [padded, hz, hr, if_true, List.length_nil, List.length_singleton, Nat.cast_zero, zero_add,
    List.nil_append, hpad]
  simp [Out.put, Out.outputchar, Out.empty]

/-- The length of a padded numeral. -/
lemma length_padded (sgn digits : List Char) (width : ℤ) (fl : Flags) :
    ((padded sgn digits width fl).length : ℤ) = max width (sgn.length + digits.length) := by
  simp only [padded]
  split_ifs
  all_goals
    simp only [List.length_append, List.length_replicate]
    omega

/-- `simple_outputi` prints the canonical numeral of its argument, padded to the width, and returns the
number of characters. The letters may start anywhere after the digits. -/
theorem outputi_numeral (i : Word) {base : ℕ} {sign : Bool} (hk : Kind base sign) {letbase : Char}
    (hl : 58 ≤ letbase.toNat) {width : ℤ} (hw : -2 ^ 31 < width) (hw' : width < 2 ^ 31)
    {fl : Flags} (hfl : ¬(fl.padZero = true ∧ fl.padRight = true)) :
    ∃ o, simpleOutputi i base sign width fl letbase = .ok o ∧
      o.text = padded (signText (value i sign)) (numeral base letbase (value i sign).natAbs) width fl ∧
      (o.text.length : ℤ) = max width ((signText (value i sign)).length +
        (numeral base letbase (value i sign).natAbs).length) ∧
      o.pc = o.text.length := by
  have hout := simpleOutputi_eq width fl hk.one_lt hl (hk.digits_length i)
  rw [hk.isNeg_eq, hk.magnitude_eq] at hout
  generalize numeral base letbase (value i sign).natAbs = digits at hout ⊢
  rw [hout]
  refine ⟨_, rfl, ?_⟩
  by_cases hneg : value i sign < 0
  · rw [signText, if_pos hneg, if_pos (decide_eq_true hneg)]
    by_cases hz : width ≠ 0 ∧ fl.padZero = true
    · have hr : fl.padRight = false := by
        rw [Bool.eq_false_iff]
        exact fun hr => hfl ⟨hz.2, hr⟩
      have htext := put_sign_text_eq digits hz.2 hr hw hw'
      rw [if_pos hz]
      refine ⟨htext, ?_, ?_⟩
      · rw [htext, length_padded]
      · simp only [Out.append, prints_pc, List.length_append]
        rfl
    · have htext := prints_sign_text_eq digits hz
      rw [if_neg hz]
      refine ⟨htext, ?_, prints_pc _ _ _⟩
      rw [htext, length_padded]
  · have htext := prints_text_eq digits width hfl
    rw [signText, if_neg hneg, if_neg (by rw [decide_eq_true_iff]; exact hneg)]
    refine ⟨htext, ?_, prints_pc _ _ _⟩
    rw [htext, length_padded]

/-- `-5` with a width of five and zeros, and 255 in upper case with a width of four and blanks behind. -/
theorem outputi_numeral_minus_five : (Kind 10 true ∧
    ∃ o, simpleOutputi (-5) 10 true 5 ⟨true, false⟩ 'a' = .ok o ∧
      o.text = padded ['-'] (numeral 10 'a' 5) 5 ⟨true, false⟩ ∧ o.pc = o.text.length) ∧
    Kind 16 false ∧
    ∃ o, simpleOutputi 255 16 false 4 ⟨false, true⟩ 'A' = .ok o ∧
      o.text = padded [] (numeral 16 'A' 255) 4 ⟨false, true⟩ ∧ o.pc = o.text.length := by
  have hk : Kind 10 true := .inl rfl
  have hk' : Kind 16 false := .inr ⟨rfl, rfl⟩
  obtain ⟨o, ho, htext, -, hpc⟩ := @outputi_numeral (-5) 10 true hk 'a' (by decide) 5 (by norm_num)
    (by norm_num) ⟨true, false⟩ (by decide)
  obtain ⟨o', ho', htext', -, hpc'⟩ := @outputi_numeral 255 16 false hk' 'A' (by decide) 4
    (by norm_num) (by norm_num) ⟨false, true⟩ (by decide)
  exact ⟨⟨hk, o, ho, htext, hpc⟩, hk', o', ho', htext', hpc'⟩

/-! ## Both flags -/

/-- The flags `-` and `0` together. -/
def bothFlags : Flags := ⟨true, true⟩

/-- The number of zeros that are put behind a number when both flags are given. -/
def zerosBehind (v : ℤ) (len : ℕ) (width : ℤ) : ℕ :=
  if v < 0 ∧ width ≠ 0 then (int32 (width - 1) - len).toNat
  else (width - ((signText v).length + len)).toNat

/-- With both flags the zeros are put behind the number. -/
lemma outputi_both_flags (i : Word) (hk : Kind base sign) (hl : 58 ≤ letbase.toNat) (width : ℤ) :
    let digits := numeral base letbase (value i sign).natAbs
    ∃ o, simpleOutputi i base sign width bothFlags letbase = .ok o ∧
      o.text = signText (value i sign) ++
        (digits ++ List.replicate (zerosBehind (value i sign) digits.length width) '0') := by
  intro digits
  have hout := simpleOutputi_eq width bothFlags hk.one_lt hl (hk.digits_length i)
  rw [hk.isNeg_eq, hk.magnitude_eq] at hout
  refine ⟨_, hout, ?_⟩
  have htext (string : List Char) (w : ℤ) : (prints string w bothFlags).text =
      string ++ List.replicate (w - string.length).toNat '0' := by
    rw [prints_eq]
    rfl
  by_cases hneg : value i sign < 0
  · rw [if_pos (decide_eq_true hneg), signText, if_pos hneg]
    by_cases hw : width = 0
    · have hzeros : zerosBehind (value i sign) digits.length width = 0 := by
        rw [zerosBehind, if_neg (fun h => h.2 hw)]
        omega
      have hpad : (width - ('-' :: digits).length).toNat = 0 := by omega
      rw [if_neg (fun h => h.1 hw), htext, hzeros, hpad]
      rfl
    · have hzeros : zerosBehind (value i sign) digits.length width =
          (int32 (width - 1) - digits.length).toNat := if_pos ⟨hneg, hw⟩
      rw [if_pos ⟨hw, rfl⟩, hzeros, Out.append, htext]
      rfl
  · have hzeros : zerosBehind (value i sign) digits.length width = (width - digits.length).toNat := by
      rw [zerosBehind, if_neg (fun h => hneg h.1), signText, if_neg hneg, List.length_nil, Nat.cast_zero,
        zero_add]
    rw [if_neg (by rw [decide_eq_true_iff]; exact hneg), signText, if_neg hneg, htext, hzeros]
    rfl

/-- No zeros are put behind a number that fills the width. For the least `int` the width wraps around. -/
lemma zerosBehind_eq_zero_iff {v width : ℤ} {len : ℕ} (hlen : len < 2 ^ 31 - 1) (hw : -2 ^ 31 ≤ width)
    (hw' : width < 2 ^ 31) :
    zerosBehind v len width = 0 ↔
      width ≤ (signText v).length + len ∧ (v < 0 → width ≠ -2 ^ 31) := by
  rw [zerosBehind]
  by_cases hneg : v < 0
  · have hsign : ((signText v).length : ℤ) = 1 := by
      rw [signText, if_pos hneg]
      rfl
    rw [hsign]
    by_cases hmin : width = -2 ^ 31
    · have hwrap : int32 (width - 1) = 2 ^ 31 - 1 := by
        rw [hmin]
        decide
      rw [if_pos ⟨hneg, by omega⟩, hwrap]
      constructor
      · intro h
        omega
      · exact fun h => absurd hmin (h.2 hneg)
    · rw [int32_eq (by omega) (by omega)]
      simp only [hneg, true_and, true_implies, ne_eq, hmin, not_false_eq_true, and_true]
      split_ifs <;> omega
  · rw [if_neg (fun h => hneg h.1)]
    simp only [hneg, false_implies, and_true]
    omega

/-- The numerals of both bases can be read back. -/
lemma Kind.legible (hk : Kind base sign) (hl : letbase = 'a' ∨ letbase = 'A') :
    Legible base letbase := by
  rcases hk with rfl | ⟨rfl, -⟩ <;> rcases hl with rfl | rfl <;> decide

/-- A number with zeros behind it denotes a multiple of the number. -/
lemma readNumeral_zeros (hb : 1 < base) (hL : Legible base letbase) (v : ℤ) (k : ℕ) :
    readNumeral base letbase
      (trim (signText v ++ (numeral base letbase v.natAbs ++ List.replicate k '0'))) =
        some (v * base ^ k) := by
  have hread := readDigits_numeral_append hb hL v.natAbs k
  have hne : numeral base letbase v.natAbs ++ List.replicate k '0' ≠ [] :=
    List.append_ne_nil_of_left_ne_nil numeral_ne_nil _
  have hblank := blank_not_mem_of_readDigits hL hread
  by_cases hneg : v < 0
  · have hsign : signText v = ['-'] := if_pos hneg
    have htrim : ' ' ∉ '-' :: (numeral base letbase v.natAbs ++ List.replicate k '0') := by
      intro h
      cases List.mem_cons.1 h with
      | inl e => exact absurd e (by decide)
      | inr h => exact hblank h
    rw [hsign, List.singleton_append, trim_eq htrim, readNumeral_neg hne hread]
    push_cast
    rw [abs_of_neg hneg, neg_mul, neg_neg]
  · have hsign : signText v = [] := if_neg hneg
    rw [hsign, List.nil_append, trim_eq hblank, readNumeral_of_readDigits hL hne hread]
    push_cast
    rw [abs_of_nonneg (not_lt.1 hneg)]

/-- The length of a numeral is that of the buffer at most. -/
lemma Kind.length_numeral (hk : Kind base sign) (letbase : Char) (i : Word) :
    (numeral base letbase (value i sign).natAbs).length ≤ 62 := by
  have hlen := hk.digits_length i
  rw [hk.magnitude_eq] at hlen
  rw [numeral]
  split_ifs
  · decide
  · rwa [figures, List.length_map, List.length_reverse]

/-- With both flags the text of a number denotes it exactly if it is zero or fills the width, the width
not being the least `int` for a negative one. -/
theorem both_flags_denote_iff (i : Word) {base : ℕ} {sign : Bool} (hk : Kind base sign) {letbase : Char}
    (hl : letbase = 'a' ∨ letbase = 'A') {width : ℤ} (hw : -2 ^ 31 ≤ width) (hw' : width < 2 ^ 31) :
    ∃ o, simpleOutputi i base sign width bothFlags letbase = .ok o ∧
      (readNumeral base letbase (trim o.text) = some (value i sign) ↔
        value i sign = 0 ∨
          width ≤ (signText (value i sign)).length +
            (numeral base letbase (value i sign).natAbs).length ∧
          (value i sign < 0 → width ≠ -2 ^ 31)) := by
  have hl58 : 58 ≤ letbase.toNat := by rcases hl with rfl | rfl <;> decide
  obtain ⟨o, ho, htext⟩ := outputi_both_flags i hk hl58 width
  have hlen := hk.length_numeral letbase i
  have hb : (1 : ℤ) < base := by exact_mod_cast hk.one_lt
  refine ⟨o, ho, ?_⟩
  rw [htext, readNumeral_zeros hk.one_lt (hk.legible hl), Option.some_inj,
    ← zerosBehind_eq_zero_iff (by omega) hw hw']
  generalize zerosBehind _ _ width = k
  constructor
  · intro h
    by_cases hv : value i sign = 0
    · exact .inl hv
    · right
      have hpow : (base : ℤ) ^ k = 1 := mul_left_cancel₀ hv (by rw [h, mul_one])
      by_contra hk0
      exact absurd hpow (one_lt_pow₀ hb hk0).ne'
  · rintro (hv | hk0)
    · rw [hv, zero_mul]
    · rw [hk0, pow_zero, mul_one]

/-- The statement for `42` without a width. -/
theorem both_flags_denote_forty_two : Kind 10 true ∧
    ∃ o, simpleOutputi 42 10 true 0 bothFlags 'a' = .ok o ∧
      readNumeral 10 'a' (trim o.text) = some 42 := by
  have hk : Kind 10 true := .inl rfl
  obtain ⟨o, ho, hiff⟩ := @both_flags_denote_iff 42 10 true hk 'a' (.inl rfl) 0 (by norm_num)
    (by norm_num)
  exact ⟨hk, o, ho, hiff.2 (.inr ⟨by positivity, nofun⟩)⟩

/-- With both flags and a width of three, `5` is printed as `500`. -/
theorem both_flags_five : simpleOutputi 5 10 true 3 bothFlags 'a' = .ok ⟨"500".toList, 3⟩ ∧
    readNumeral 10 'a' (trim "500".toList) ≠ some 5 := by
  decide

/-! ## The buffer -/

/-- The conversions that call `simple_outputi`. -/
def Conv.IsNumber : Conv → Prop
  | .int _ _ | .b | .p => True
  | .c | .s => False

/-- Decimal and hexadecimal numbers are stored inside the buffer. -/
lemma Kind.outputi_ok (hk : Kind base sign) (hl : 58 ≤ letbase.toNat) (i : Word) (width : ℤ)
    (fl : Flags) : ∃ o, simpleOutputi i base sign width fl letbase = .ok o :=
  ⟨_, simpleOutputi_eq width fl hk.one_lt hl (hk.digits_length i)⟩

/-- A binary number is stored inside the buffer if it has 63 digits at most, that is, if it is not
negative. -/
lemma outputi_binary_ok_iff (i : Word) (width : ℤ) (fl : Flags) :
    (∃ o, simpleOutputi i 2 true width fl 'a' = .ok o) ↔ 0 ≤ i.toInt := by
  have hint : i.toInt = if 2 * i.toNat < 2 ^ 64 then (i.toNat : ℤ) else i.toNat - (2 ^ 64 : ℕ) :=
    BitVec.toInt_eq_toNat_cond i
  have hlt := i.isLt
  by_cases hi : i = 0
  · subst hi
    exact iff_of_true ⟨_, rfl⟩ (by decide)
  · have hneg : isNeg i 2 true = false := rfl
    have hmag : magnitude i 2 true = i.toNat := rfl
    have hloop := digitLoop_eq one_lt_two (show 58 ≤ ('a').toNat by decide) (printBufLen - 1)
      i.toNat []
    have hdigits : (Nat.digits 2 i.toNat).length ≤ printBufLen - 1 ↔ i.toNat < 2 ^ 63 :=
      Nat.digits_length_le_iff one_lt_two _
    rw [simpleOutputi_of_ne hi, hneg, hmag, hloop]
    by_cases hfits : i.toNat < 2 ^ 63
    · rw [if_pos (hdigits.2 hfits)]
      refine iff_of_true ⟨_, rfl⟩ ?_
      rw [hint, if_pos (by omega)]
      omega
    · rw [if_neg (fun h => hfits (hdigits.1 h))]
      refine iff_of_false ?_ ?_
      · rintro ⟨o, h⟩
        cases h
      · rw [hint, if_neg (by omega)]
        omega

/-- A conversion of a number stores inside `print_buf` exactly if it is not the binary one of a negative
`int`. -/
theorem buffer_kept_iff (a : Call) (k : Conv) (hk : k.IsNumber) (width : ℤ) (fl : Flags) (o : Out)
    (ap : ℕ) (u : Word) (f : List Char) :
    (∃ p, formatSwitch a width fl ⟨k.render ++ f, o, ap, u⟩ = .ok p) ↔
      ¬(k = .b ∧ ((a.args ap).setWidth 32).toInt < 0) := by
  have hout : (∃ p, formatSwitch a width fl ⟨k.render ++ f, o, ap, u⟩ = .ok p) ↔
      ∃ o', k.out a width fl (load (store u k.write (a.args ap)) k.read) = .ok o' := by
    rw [formatSwitch_render]
    constructor
    · rintro ⟨p, hp⟩
      obtain ⟨o', ho', -⟩ := bind_eq_ok.1 hp
      exact ⟨o', ho'⟩
    · rintro ⟨o', ho'⟩
      rw [ho']
      exact ⟨_, rfl⟩
  rw [hout]
  cases k with
  | int m t =>
    refine iff_of_true ?_ nofun
    cases t with
    | d => exact Kind.outputi_ok (.inl rfl) (by decide) _ width fl
    | u => exact Kind.outputi_ok (.inl rfl) (by decide) _ width fl
    | x => exact Kind.outputi_ok (.inr ⟨rfl, rfl⟩) (by decide) _ width fl
    | X => exact Kind.outputi_ok (.inr ⟨rfl, rfl⟩) (by decide) _ width fl
  | p => exact iff_of_true (Kind.outputi_ok (.inr ⟨rfl, rfl⟩) (by decide) _ width fl) nofun
  | c | s => exact hk.elim
  | b =>
    have hload : load (store u Conv.b.write (a.args ap)) Conv.b.read =
        ((a.args ap).setWidth 32).signExtend 64 := load_store_self u .i (a.args ap)
    rw [hload]
    show (∃ o', simpleOutputi _ 2 true width fl 'a' = .ok o') ↔ _
    rw [outputi_binary_ok_iff, BitVec.toInt_signExtend_of_le (by norm_num)]
    simp

/-- A call of `printk` with `-1` as its arguments. -/
def minusOneCall (format : List Char) : Call := ⟨format, fun _ => -1, fun _ => [], 0⟩

/-- The statement for `%d` of `-1`. -/
theorem buffer_kept_decimal : (Conv.int .none .d).IsNumber ∧
    ∃ p, formatSwitch (minusOneCall "%d".toList) 0 ⟨false, false⟩
      ⟨(Conv.int .none .d).render ++ [], .empty, 0, 0⟩ = .ok p :=
  ⟨trivial, (buffer_kept_iff (minusOneCall "%d".toList) (.int .none .d) trivial 0 ⟨false, false⟩ .empty 0
    0 []).2 nofun⟩

/-- `%b` of `-1` has 64 digits, and the first one is stored in front of `print_buf`. -/
theorem buffer_left_binary :
    formatSwitch (minusOneCall "%b".toList) 0 ⟨false, false⟩ ⟨Conv.b.render ++ [], .empty, 0, 0⟩ =
      .error .wild := by
  have hloop : digitLoop 2 'a' (printBufLen - 1) (2 ^ 64 - 1) [] = .error .wild := by decide
  have hdecide : simpleOutputi (-1) 2 true 0 ⟨false, false⟩ 'a' = .error .wild := by
    rw [simpleOutputi_of_ne (by decide)]
    exact congrArg (· >>= _) hloop
  have hload : load (store 0 Conv.b.write (-1)) Conv.b.read = -1 := by decide
  rw [formatSwitch_render]
  show (Conv.b.out _ _ _ (load (store 0 Conv.b.write (-1)) Conv.b.read) >>= _) = _
  rw [hload]
  exact congrArg (· >>= _) hdecide

end

end KingdoKernel.Printk
