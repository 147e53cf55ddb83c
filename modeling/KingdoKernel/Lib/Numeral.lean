import Mathlib

/-!
# Numerals

Numbers written in a base, with the figures `0` to `9` and then consecutive letters. `numeral` is the
canonical text of a number, without leading zeros, and `readNumeral` reads a text back, with a sign in
front. `readDigits_figures` and `readDigits_append_zeros`: a numeral denotes its number, and zeros behind
it multiply the number by powers of the base.
-/

namespace KingdoKernel.Numeral

/-- The character of the digit `t`; `letbase` is the first of the letters. -/
def figure (letbase : Char) (t : ℕ) : Char :=
  if t < 10 then Char.ofNat ('0'.toNat + t) else Char.ofNat (letbase.toNat + (t - 10))

/-- The figures of a number, most significant first; none for zero. -/
def figures (base : ℕ) (letbase : Char) (n : ℕ) : List Char :=
  (Nat.digits base n).reverse.map (figure letbase)

/-- The canonical numeral of a number. -/
def numeral (base : ℕ) (letbase : Char) (n : ℕ) : List Char :=
  if n = 0 then ['0'] else figures base letbase n

/-- The digit that a character stands for. -/
def figureValue (base : ℕ) (letbase c : Char) : Option ℕ :=
  (List.range base).find? fun t => figure letbase t = c

/-- The number that a text of figures denotes. -/
def readDigits (base : ℕ) (letbase : Char) (l : List Char) : Option ℕ :=
  l.foldlM (fun n c => (figureValue base letbase c).map (n * base + ·)) 0

/-- The number that a numeral denotes: figures, after a sign or not. -/
def readNumeral (base : ℕ) (letbase : Char) : List Char → Option ℤ
  | [] => none
  | c :: l =>
    if c = '-' then if l = [] then none else (readDigits base letbase l).map fun n => -(n : ℤ)
    else (readDigits base letbase (c :: l)).map fun n => (n : ℤ)

/-- The figures of the base can be told apart, and from a sign and a blank. -/
def Legible (base : ℕ) (letbase : Char) : Prop :=
  (∀ t < base, figureValue base letbase (figure letbase t) = some t) ∧
    figureValue base letbase '-' = none ∧ figureValue base letbase ' ' = none

instance (base : ℕ) (letbase : Char) : Decidable (Legible base letbase) :=
  inferInstanceAs (Decidable (_ ∧ _ ∧ _))

/-- A text without the blanks around it. -/
def trim (l : List Char) : List Char := (l.dropWhile (· = ' ')).rdropWhile (· = ' ')

variable {base : ℕ} {letbase : Char} {n k : ℕ}

/-- The numeral of a positive number has no leading zero. -/
lemma numeral_of_pos (h : n ≠ 0) : numeral base letbase n = figures base letbase n := if_neg h

/-- A positive number has a figure. -/
lemma figures_ne_nil (h : n ≠ 0) : figures base letbase n ≠ [] := by
  rw [figures, ne_eq, List.map_eq_nil_iff, List.reverse_eq_nil_iff]
  exact Nat.digits_ne_nil_iff_ne_zero.2 h

/-- A numeral is not empty. -/
lemma numeral_ne_nil : numeral base letbase n ≠ [] := by
  by_cases h : n = 0
  · rw [numeral, if_pos h]
    exact List.cons_ne_nil _ _
  · rw [numeral_of_pos h]
    exact figures_ne_nil h

/-- The digits of a text are read one by one. -/
lemma foldlM_map_figure (hL : Legible base letbase) {ds : List ℕ} (hds : ∀ d ∈ ds, d < base) (n : ℕ) :
    (ds.map (figure letbase)).foldlM
      (fun n c => (figureValue base letbase c).map (n * base + ·)) n =
        some (ds.foldl (fun n d => n * base + d) n) := by
  induction ds generalizing n with
  | nil => rfl
  | cons d ds ih =>
    rw [List.map_cons, List.foldlM_cons, hL.1 d (hds d List.mem_cons_self), List.foldl_cons]
    exact ih (fun e he => hds e (List.mem_cons_of_mem d he)) _

/-- The value of the digits, most significant first. -/
lemma foldl_eq_ofDigits (base : ℕ) (ds : List ℕ) (n : ℕ) :
    ds.foldl (fun n d => n * base + d) n = n * base ^ ds.length + Nat.ofDigits base ds.reverse := by
  induction ds generalizing n with
  | nil => simp
  | cons d ds ih =>
    rw [List.foldl_cons, ih, List.length_cons, Nat.ofDigits_reverse_cons, pow_succ]
    ring

/-- Zeros behind the figures of a number. -/
lemma readDigits_append_zeros (hb : 1 < base) (hL : Legible base letbase) (n k : ℕ) :
    readDigits base letbase (figures base letbase n ++ List.replicate k '0') = some (n * base ^ k) := by
  have e : figures base letbase n ++ List.replicate k '0' =
      ((Nat.digits base n).reverse ++ List.replicate k 0).map (figure letbase) := by
    rw [List.map_append, List.map_replicate]
    rfl
  have hds : ∀ d ∈ (Nat.digits base n).reverse ++ List.replicate k 0, d < base := by
    intro d hd
    cases List.mem_append.1 hd with
    | inl h => exact Nat.digits_lt_base hb (List.mem_reverse.1 h)
    | inr h =>
      rw [List.eq_of_mem_replicate h]
      omega
  rw [readDigits, e, foldlM_map_figure hL hds, foldl_eq_ofDigits, Nat.zero_mul, Nat.zero_add,
    List.reverse_append, List.reverse_replicate, List.reverse_reverse, Nat.ofDigits_append,
    Nat.ofDigits_replicate_zero, List.length_replicate, Nat.ofDigits_digits, Nat.zero_add, Nat.mul_comm]

/-- Zeros behind a numeral. -/
lemma readDigits_numeral_append (hb : 1 < base) (hL : Legible base letbase) (n k : ℕ) :
    readDigits base letbase (numeral base letbase n ++ List.replicate k '0') = some (n * base ^ k) := by
  by_cases h : n = 0
  · have e : numeral base letbase n ++ List.replicate k '0' =
        figures base letbase 0 ++ List.replicate (k + 1) '0' := by
      rw [numeral, if_pos h, figures, Nat.digits_zero]
      rfl
    rw [e, readDigits_append_zeros hb hL, h, Nat.zero_mul, Nat.zero_mul]
  · rw [numeral_of_pos h]
    exact readDigits_append_zeros hb hL n k

/-- A text that starts with a figure is read as it is. -/
lemma readNumeral_of_readDigits (hL : Legible base letbase) {l : List Char} (hl : l ≠ [])
    (h : readDigits base letbase l = some n) : readNumeral base letbase l = some (n : ℤ) := by
  cases l with
  | nil => exact absurd rfl hl
  | cons c l =>
    have hc : c ≠ '-' := by
      rintro rfl
      rw [readDigits, List.foldlM_cons, hL.2.1] at h
      cases h
    rw [readNumeral, if_neg hc, h]
    rfl

/-- A text after a sign. -/
lemma readNumeral_neg {l : List Char} (hl : l ≠ []) (h : readDigits base letbase l = some n) :
    readNumeral base letbase ('-' :: l) = some (-(n : ℤ)) := by
  rw [readNumeral, if_pos rfl, if_neg hl, h]
  rfl

/-- A text of figures contains no blanks. -/
lemma blank_not_mem_of_readDigits (hL : Legible base letbase) {l : List Char}
    (h : readDigits base letbase l = some n) : ' ' ∉ l := by
  rw [readDigits] at h
  generalize 0 = m at h
  induction l generalizing m with
  | nil => exact List.not_mem_nil
  | cons c l ih =>
    rw [List.foldlM_cons] at h
    obtain ⟨m', hc, h⟩ := Option.bind_eq_some_iff.1 h
    intro hmem
    cases List.mem_cons.1 hmem with
    | inl e =>
      rw [← e, hL.2.2] at hc
      cases hc
    | inr hmem => exact ih m' h hmem

/-- A text without blanks is not trimmed. -/
lemma trim_eq {l : List Char} (h : ' ' ∉ l) : trim l = l := by
  have hp : ∀ c ∈ l, ¬decide (c = ' ') = true := by
    intro c hc e
    exact h (of_decide_eq_true e ▸ hc)
  have hdrop : l.dropWhile (· = ' ') = l := by
    cases l with
    | nil => rfl
    | cons c l => exact List.dropWhile_cons_of_neg (hp c List.mem_cons_self)
  rw [trim, hdrop, List.rdropWhile_eq_self_iff]
  exact fun hl => hp _ (List.getLast_mem hl)

end KingdoKernel.Numeral
