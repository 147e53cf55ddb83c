import Mathlib

/-!
# Bit fields

A word is a natural number; the bit field of width `w` at offset `o` is read by `getBits v o w` and
written by `setBits v o w x`, which truncates `x` to the field. `getBits_setBits_self` and
`getBits_setBits_of_disjoint` are the two laws of reading after writing, `getBits_or` reads a word that
is put together by bitwise or. A `Layout` names the fields of a word and carries the proof that they do
not overlap; `Layout.get_set` is then one law for all of its fields.
-/

namespace KingdoKernel.BitField

variable {v o w x o' w' n : ℕ}

/-- The field of `w` bits at bit `o`. -/
def getBits (v o w : ℕ) : ℕ := v / 2 ^ o % 2 ^ w

/-- The word with the field of `w` bits at bit `o` replaced by the low bits of `x`. -/
def setBits (v o w x : ℕ) : ℕ := v % 2 ^ o + 2 ^ o * (x % 2 ^ w + 2 ^ w * (v / 2 ^ (o + w)))

/-- Writing a field keeps the bits below it. -/
lemma setBits_mod (v o w x : ℕ) : setBits v o w x % 2 ^ o = v % 2 ^ o := by
  rw [setBits, Nat.add_mul_mod_self_left, Nat.mod_mod]

/-- The bits of a written word from the field on. -/
lemma setBits_div (v o w x : ℕ) :
    setBits v o w x / 2 ^ o = x % 2 ^ w + 2 ^ w * (v / 2 ^ (o + w)) := by
  have hpos : 0 < 2 ^ o := Nat.two_pow_pos o
  rw [setBits, Nat.add_mul_div_left _ _ hpos, Nat.div_eq_of_lt (Nat.mod_lt _ hpos), Nat.zero_add]

/-- Writing a field keeps the bits above it. -/
lemma setBits_div_above (v o w x : ℕ) :
    setBits v o w x / 2 ^ (o + w) = v / 2 ^ (o + w) := by
  have hpos : 0 < 2 ^ w := Nat.two_pow_pos w
  rw [pow_add, ← Nat.div_div_eq_div_mul, setBits_div, Nat.add_mul_div_left _ _ hpos,
    Nat.div_eq_of_lt (Nat.mod_lt _ hpos), Nat.zero_add, pow_add]

/-- A field is a part of the bits below its end. -/
lemma getBits_eq_mod_div (v o w : ℕ) : getBits v o w = v % 2 ^ (o + w) / 2 ^ o := by
  rw [getBits, pow_add, Nat.mod_mul_right_div_self]

/-- A field that ends below bit `n` depends on the bits below `n` only. -/
lemma getBits_congr_mod {v v' : ℕ} (h : v' % 2 ^ n = v % 2 ^ n) (hn : o + w ≤ n) :
    getBits v' o w = getBits v o w := by
  have hdvd : 2 ^ (o + w) ∣ 2 ^ n := pow_dvd_pow 2 hn
  rw [getBits_eq_mod_div, getBits_eq_mod_div, ← Nat.mod_mod_of_dvd v' hdvd, h,
    Nat.mod_mod_of_dvd v hdvd]

/-- A field that starts at or above bit `n` depends on the bits from `n` on only. -/
lemma getBits_congr_div {v v' : ℕ} (h : v' / 2 ^ n = v / 2 ^ n) (hn : n ≤ o) :
    getBits v' o w = getBits v o w := by
  obtain ⟨k, rfl⟩ := Nat.exists_eq_add_of_le hn
  rw [getBits, getBits, pow_add, ← Nat.div_div_eq_div_mul, ← Nat.div_div_eq_div_mul, h]

/-- A written field reads as the value written, truncated to the field. -/
lemma getBits_setBits_self (v o w x : ℕ) : getBits (setBits v o w x) o w = x % 2 ^ w := by
  rw [getBits, setBits_div, Nat.add_mul_mod_self_left, Nat.mod_mod]

/-- Writing a field leaves the fields apart from it as they were. -/
lemma getBits_setBits_of_disjoint (h : o' + w' ≤ o ∨ o + w ≤ o') :
    getBits (setBits v o w x) o' w' = getBits v o' w' := by
  cases h with
  | inl h => exact getBits_congr_mod (setBits_mod v o w x) h
  | inr h => exact getBits_congr_div (setBits_div_above v o w x) h

/-- Writing a field of a word keeps the width of the word. -/
lemma setBits_lt (hv : v < 2 ^ n) (hn : o + w ≤ n) : setBits v o w x < 2 ^ n := by
  obtain ⟨k, rfl⟩ := Nat.exists_eq_add_of_le hn
  apply (Nat.div_eq_zero_iff_lt (Nat.two_pow_pos _)).1
  rw [pow_add, ← Nat.div_div_eq_div_mul, setBits_div_above, Nat.div_div_eq_div_mul, ← pow_add]
  exact Nat.div_eq_of_lt hv

/-- A field fits its width. -/
lemma getBits_lt (v o w : ℕ) : getBits v o w < 2 ^ w := Nat.mod_lt _ (Nat.two_pow_pos w)

/-- The fields of zero are zero. -/
@[simp] lemma getBits_zero (o w : ℕ) : getBits 0 o w = 0 := by
  rw [getBits, Nat.zero_div, Nat.zero_mod]

/-- The fields of a bitwise or. -/
lemma getBits_or (v v' o w : ℕ) : getBits (v ||| v') o w = getBits v o w ||| getBits v' o w := by
  rw [getBits, getBits, getBits, ← Nat.shiftRight_eq_div_pow, ← Nat.shiftRight_eq_div_pow,
    ← Nat.shiftRight_eq_div_pow, Nat.shiftRight_or_distrib, Nat.or_mod_two_pow]

/-- A field that is written alone. -/
lemma getBits_mul_self (x o w : ℕ) (hx : x < 2 ^ w) : getBits (x * 2 ^ o) o w = x := by
  rw [getBits, Nat.mul_div_cancel _ (Nat.two_pow_pos o), Nat.mod_eq_of_lt hx]

/-- A field above the bits that are read. -/
lemma getBits_mul_of_le (x : ℕ) {o o' w' : ℕ} (h : o' + w' ≤ o) : getBits (x * 2 ^ o) o' w' = 0 := by
  obtain ⟨d, rfl⟩ := Nat.exists_eq_add_of_le h
  rw [getBits_eq_mod_div]
  have e : x * 2 ^ (o' + w' + d) = 2 ^ (o' + w') * (x * 2 ^ d) := by ring
  rw [e, Nat.mul_mod_right, Nat.zero_div]

/-- A number below the bits that are read. -/
lemma getBits_of_lt {x o w : ℕ} (h : x < 2 ^ o) : getBits x o w = 0 := by
  rw [getBits, Nat.div_eq_of_lt h, Nat.zero_mod]

/-- The mask of one bit tests that bit. -/
lemma and_two_pow_eq_zero_iff (v i : ℕ) : v &&& 2 ^ i = 0 ↔ getBits v i 1 = 0 := by
  rw [Nat.and_two_pow, getBits, Nat.testBit_eq_decide_div_mod_eq, pow_one]
  rcases Nat.mod_two_eq_zero_or_one (v / 2 ^ i) with h | h <;> simp [h]

/-- A word with named bit fields, no two of which overlap. -/
structure Layout (ι : Type*) where
  bits : ℕ
  offset : ι → ℕ
  width : ι → ℕ
  fits : ∀ i, offset i + width i ≤ bits
  disjoint : ∀ i j, i ≠ j → offset i + width i ≤ offset j ∨ offset j + width j ≤ offset i

namespace Layout

variable {ι : Type*} (L : Layout ι)

/-- Read a field. -/
def get (v : ℕ) (i : ι) : ℕ := getBits v (L.offset i) (L.width i)

/-- Write a field. -/
def set (v : ℕ) (i : ι) (x : ℕ) : ℕ := setBits v (L.offset i) (L.width i) x

/-- The fields of zero are zero, by name. -/
@[simp] lemma get_zero (i : ι) : L.get 0 i = 0 := getBits_zero _ _

/-- A field fits its width. -/
lemma get_lt (v : ℕ) (i : ι) : L.get v i < 2 ^ L.width i := getBits_lt _ _ _

/-- Reading a field after writing one. -/
lemma get_set [DecidableEq ι] (v : ℕ) (i j : ι) (x : ℕ) :
    L.get (L.set v j x) i = if i = j then x % 2 ^ L.width j else L.get v i := by
  split
  · next h =>
    subst h
    exact getBits_setBits_self _ _ _ _
  · next h => exact getBits_setBits_of_disjoint (L.disjoint i j h)

/-- Writing a field keeps the width of the word. -/
lemma set_lt {v : ℕ} (hv : v < 2 ^ L.bits) (i : ι) (x : ℕ) : L.set v i x < 2 ^ L.bits :=
  setBits_lt hv (L.fits i)

end Layout

end KingdoKernel.BitField
