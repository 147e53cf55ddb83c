import KingdoKernel.Buddy.Basic
import KingdoKernel.Lib.Search

/-!
# Bitmaps

Model of `include/common/bitops.h`. A bitmap is the array of words that a pointer points to; the
functions that search one also return the indices of the words they read, in order. An `unsigned long`
is a natural number, with subtraction modulo `2 ^ 64`; the counter `res`, a `long`, and the result, an
`int`, are integers, and conversions to a signed type are modulo its width. The variable of
`for_each_set_bit` is an `int`, as the function that sets it returns one, and its `size` an
`unsigned long`; the body of the loop is not to write the variable or the bitmap, and stands for the list
of positions at which it runs.

`find_next_bit_helper` keeps its position twice, as the word and the bit that it looks at and as the
counter that it returns; `scanSlot_eq` and `scanSlots_eq` say that the two agree and that the loops
compute `Search.next`. `find_next_bit_least` is the result for the whole search and for the loop over it;
`ctzl_eq_iff` is for the interrupts of a core, which are read as one word.
-/

namespace KingdoKernel.Bitops
open Search

/-- The words of a bitmap. -/
abbrev Bitmap := ℕ → BitVec 64

/-- `BITS_PER_LONG`. -/
def bitsPerLong : ℕ := 64

/-- The conversion to a signed type of `w` bits. -/
def toSigned (w : ℕ) (x : ℤ) : ℤ := x.bmod (2 ^ w)

/-- The conversion to an unsigned type of `w` bits. -/
def toUnsigned (w : ℕ) (x : ℤ) : ℕ := (x % 2 ^ w).toNat

/-- `get_bit_in_slot`. -/
def getBitInSlot (u64slot : BitVec 64) (bit : ℕ) : BitVec 64 := u64slot &&& 1#64 <<< bit

/-- `get_bit`. -/
def getBit (nr : ℕ) (p : Bitmap) : ℕ :=
  let nlongs := nr / bitsPerLong
  let ilongs := nr % bitsPerLong
  (p nlongs >>> ilongs &&& 0x1#64).toNat

/-- `ctzl`. -/
def ctzl (x : BitVec 64) : ℕ := if x = 0 then bitsPerLong else x.ctz.toNat

/-- How the `for` of `find_next_bit_helper` ends: with a `return`, or at its end. -/
inductive Exit where
  | ret (res : ℤ)
  | next (res : ℤ)
deriving DecidableEq, Repr

/-- The condition `invert ? !cur_bit_value : cur_bit_value`. -/
def stops (invert curBitValue : ℤ) : Bool :=
  if invert ≠ 0 then curBitValue = 0 else curBitValue ≠ 0

/-- The `for` of `find_next_bit_helper`, over the bits of one word. -/
def scanSlot (p : Bitmap) (invert : ℤ) (curElemIndex maxBit curBit : ℕ) (res : ℤ) :
    Exit × List ℕ :=
  if curBit ≤ maxBit then
    let curBitValue := (getBitInSlot (p curElemIndex) curBit).toInt
    if stops invert curBitValue then (.ret res, [curElemIndex])
    else
      let rest := scanSlot p invert curElemIndex maxBit (curBit + 1) (toSigned 64 (res + 1))
      (rest.1, curElemIndex :: rest.2)
  else (.next res, [])
termination_by maxBit + 1 - curBit

/-- `max_bit`, the last bit of a word. -/
def maxBit (size maxElemIndex curElemIndex : ℕ) : ℕ :=
  if curElemIndex < maxElemIndex then bitsPerLong - 1 else subWord size 1 % bitsPerLong

/-- The `while` of `find_next_bit_helper`, over the words. -/
def scanSlots (p : Bitmap) (invert : ℤ) (size maxElemIndex curElemIndex curBit : ℕ) (res : ℤ) :
    ℤ × List ℕ :=
  if curElemIndex ≤ maxElemIndex then
    let slot := scanSlot p invert curElemIndex (maxBit size maxElemIndex curElemIndex) curBit res
    match slot.1 with
    | .ret res => (res, slot.2)
    | .next res =>
      let rest := scanSlots p invert size maxElemIndex (curElemIndex + 1) 0 res
      (rest.1, slot.2 ++ rest.2)
  else (size, [])
termination_by maxElemIndex + 1 - curElemIndex

/-- `find_next_bit_helper`: the result, and the words that were read. -/
def findNextBitHelper (p : Bitmap) (size start : ℕ) (invert : ℤ) : ℤ × List ℕ :=
  let out := scanSlots p invert size (subWord size 1 / bitsPerLong) (start / bitsPerLong)
    (start % bitsPerLong) (toSigned 64 start)
  (toSigned 32 out.1, out.2)

/-- `find_next_zero_bit`. -/
def findNextZeroBit (p : Bitmap) (size start : ℕ) : ℤ × List ℕ := findNextBitHelper p size start 1

/-- `find_next_bit`. -/
def findNextBit (p : Bitmap) (size start : ℕ) : ℤ × List ℕ := findNextBitHelper p size start 0

/-- The loop of `for_each_set_bit` from `pos` on: the positions visited, unless it takes `fuel` steps. -/
def visitFrom (addr : Bitmap) (size : ℕ) : (fuel : ℕ) → (pos : ℤ) → Option (List ℤ)
  | 0, _ => none
  | fuel + 1, pos =>
    if toUnsigned 64 pos < size then
      let start := toUnsigned 64 (toSigned 32 (pos + 1))
      (visitFrom addr size fuel (findNextBit addr size start).1).map (pos :: ·)
    else some []

/-- `for_each_set_bit`. -/
def forEachSetBit (addr : Bitmap) (size fuel : ℕ) : Option (List ℤ) :=
  visitFrom addr size fuel (findNextBit addr size 0).1

/-! ## Single bits -/

variable {p : Bitmap} {invert : ℤ} {size start : ℕ}

/-- A number below the sign bit stays the same. -/
lemma toSigned_of_lt {w n : ℕ} (hw : 0 < w) (h : n < 2 ^ (w - 1)) : toSigned w n = n := by
  obtain ⟨v, rfl⟩ := Nat.exists_eq_add_one_of_ne_zero hw.ne'
  rw [Nat.add_sub_cancel] at h
  have hpow : 2 ^ (v + 1) = 2 * 2 ^ v := by rw [pow_succ, mul_comm]
  apply Int.bmod_eq_of_le <;> omega

/-- A number that fits stays the same. -/
lemma toUnsigned_of_lt {w n : ℕ} (h : n < 2 ^ w) : toUnsigned w n = n := by
  rw [toUnsigned, ← Nat.cast_ofNat, ← Nat.cast_pow, ← Int.natCast_mod, Int.toNat_natCast,
    Nat.mod_eq_of_lt h]

/-- `size - 1` of a positive size. -/
lemma subWord_one (hpos : 1 ≤ size) (hsize : size < 2 ^ 31) : subWord size 1 = size - 1 :=
  subWord_of_le (by omega) hpos

/-- `get_bit` reads one bit of one word. -/
lemma getBit_eq (nr : ℕ) (p : Bitmap) :
    getBit nr p = ((p (nr / bitsPerLong)).getLsbD (nr % bitsPerLong)).toNat := by
  rw [← BitVec.testBit_toNat, Nat.toNat_testBit, ← Nat.shiftRight_eq_div_pow, ← Nat.and_one_is_mod]
  rfl

/-- The value of the bits that are searched for. -/
def sought (invert : ℤ) : ℕ := if invert ≠ 0 then 0 else 1

/-- The bit at `i` is `b`. -/
def isBit (p : Bitmap) (b i : ℕ) : Bool := getBit i p = b

/-- The masked word, as a `long`, is zero when the bit is. -/
lemma getBitInSlot_eq_zero {w : BitVec 64} {bit : ℕ} :
    (getBitInSlot w bit).toInt = 0 ↔ w.getLsbD bit = false := by
  have hmask : getBitInSlot w bit = if w.getLsbD bit then BitVec.twoPow 64 bit else 0#64 := by
    rw [getBitInSlot, ← BitVec.twoPow_eq, BitVec.and_twoPow]
  rw [← BitVec.toInt_zero (w := 64), BitVec.toInt_inj, hmask]
  cases hbit : w.getLsbD bit with
  | true =>
    have hset : (BitVec.twoPow 64 bit).getLsbD bit = true := by
      rw [BitVec.getLsbD_twoPow, decide_eq_true rfl, Bool.and_true]
      exact decide_eq_true (BitVec.lt_of_getLsbD hbit)
    rw [if_pos rfl]
    refine ⟨fun e => ?_, fun e => Bool.noConfusion e⟩
    rw [e, BitVec.getLsbD_zero] at hset
    exact hset.symm
  | false => exact ⟨fun _ => rfl, fun _ => if_neg Bool.false_ne_true⟩

/-- The condition of the inner loop looks at the bit that the position stands for. -/
lemma stops_slot (p : Bitmap) (invert : ℤ) {k bit : ℕ} (h : bit < bitsPerLong) :
    stops invert (getBitInSlot (p k) bit).toInt =
      isBit p (sought invert) (bitsPerLong * k + bit) := by
  have hdiv : (bitsPerLong * k + bit) / bitsPerLong = k := by
    rw [Nat.mul_add_div (by decide), Nat.div_eq_of_lt h, Nat.add_zero]
  have hmod : (bitsPerLong * k + bit) % bitsPerLong = bit := by
    rw [Nat.mul_add_mod, Nat.mod_eq_of_lt h]
  rw [isBit, getBit_eq, hdiv, hmod, stops, sought]
  cases hbit : (p k).getLsbD bit with
  | true => simp [getBitInSlot_eq_zero, hbit]
  | false => simp [getBitInSlot_eq_zero, hbit]

/-! ## The two loops -/

section Slot

variable {k maxBit curBit : ℕ} {res : ℤ}

/-- The loop over a word ends after its last bit. -/
lemma scanSlot_end (h : maxBit < curBit) : scanSlot p invert k maxBit curBit res = (.next res, []) := by
  rw [scanSlot, if_neg (not_le.2 h)]

/-- The loop over a word returns at a bit that it stops at. -/
lemma scanSlot_ret (h : curBit ≤ maxBit) (hs : stops invert (getBitInSlot (p k) curBit).toInt = true) :
    scanSlot p invert k maxBit curBit res = (.ret res, [k]) := by
  rw [scanSlot, if_pos h]
  exact if_pos hs

/-- The loop over a word goes on after any other bit. -/
lemma scanSlot_step (h : curBit ≤ maxBit)
    (hs : stops invert (getBitInSlot (p k) curBit).toInt = false) :
    scanSlot p invert k maxBit curBit res =
      ((scanSlot p invert k maxBit (curBit + 1) (toSigned 64 (res + 1))).1,
        k :: (scanSlot p invert k maxBit (curBit + 1) (toSigned 64 (res + 1))).2) := by
  rw [scanSlot, if_pos h]
  exact if_neg (Bool.eq_false_iff.1 hs)

/-- The `for` searches its word from the position on, and counts along. -/
lemma scanSlot_eq {i stop : ℕ} (hmax : maxBit < bitsPerLong)
    (hi : i = bitsPerLong * k + curBit) (hstop : stop = bitsPerLong * k + maxBit + 1)
    (hlt : stop < 2 ^ 63) :
    (scanSlot p invert k maxBit curBit i).1 =
      if next (isBit p (sought invert)) stop i < stop then
        .ret (next (isBit p (sought invert)) stop i)
      else .next (max i stop : ℕ) := by
  induction hn : maxBit + 1 - curBit generalizing curBit i with
  | zero =>
    have hle : stop ≤ i := by omega
    rw [scanSlot_end (by omega), next_of_le hle, if_neg (lt_irrefl stop), max_eq_left hle]
  | succ n ih =>
    have hcur : curBit ≤ maxBit := by omega
    have his : i < stop := by omega
    have hstops := stops_slot p invert (k := k) (hcur.trans_lt hmax)
    rw [← hi] at hstops
    cases hbit : isBit p (sought invert) i with
    | true => rw [scanSlot_ret hcur (hstops.trans hbit), next_self his hbit, if_pos his]
    | false =>
      have hres : toSigned 64 ((i : ℤ) + 1) = (i + 1 : ℕ) := by
        rw [← Nat.cast_add_one]
        exact toSigned_of_lt (by decide) (by omega)
      have hmaxi : max i stop = max (i + 1) stop := by omega
      rw [scanSlot_step hcur (hstops.trans hbit), next_succ his hbit, hres, hmaxi]
      exact ih (by omega) (by omega)

/-- The `for` reads its own word only. -/
lemma scanSlot_reads {k' : ℕ} (h : k' ∈ (scanSlot p invert k maxBit curBit res).2) : k' = k := by
  induction hn : maxBit + 1 - curBit generalizing curBit res with
  | zero =>
    rw [scanSlot_end (by omega)] at h
    cases h
  | succ n ih =>
    have hcur : curBit ≤ maxBit := by omega
    cases hs : stops invert (getBitInSlot (p k) curBit).toInt with
    | true =>
      rw [scanSlot_ret hcur hs] at h
      exact List.mem_singleton.1 h
    | false =>
      rw [scanSlot_step hcur hs] at h
      cases h with
      | head => rfl
      | tail _ h => exact ih h (by omega)

end Slot

section Slots

variable {maxElemIndex k curBit : ℕ} {res res' : ℤ}

/-- After the last word the result is `size`. -/
lemma scanSlots_end (h : maxElemIndex < k) :
    scanSlots p invert size maxElemIndex k curBit res = ((size : ℤ), []) := by
  rw [scanSlots, if_neg (not_le.2 h)]

/-- A result found in a word is the result. -/
lemma scanSlots_ret (h : k ≤ maxElemIndex)
    (hs : (scanSlot p invert k (maxBit size maxElemIndex k) curBit res).1 = .ret res') :
    scanSlots p invert size maxElemIndex k curBit res =
      (res', (scanSlot p invert k (maxBit size maxElemIndex k) curBit res).2) := by
  rw [scanSlots, if_pos h]
  simp only [hs]

/-- Without a result the next word is looked at from its first bit. -/
lemma scanSlots_next (h : k ≤ maxElemIndex)
    (hs : (scanSlot p invert k (maxBit size maxElemIndex k) curBit res).1 = .next res') :
    scanSlots p invert size maxElemIndex k curBit res =
      ((scanSlots p invert size maxElemIndex (k + 1) 0 res').1,
        (scanSlot p invert k (maxBit size maxElemIndex k) curBit res).2 ++
          (scanSlots p invert size maxElemIndex (k + 1) 0 res').2) := by
  rw [scanSlots, if_pos h]
  simp only [hs]

/-- The bits of the word `k` end with the word, or with the bitmap. -/
lemma maxBit_cases (hpos : 1 ≤ size) (hsize : size < 2 ^ 31)
    (hmax : maxElemIndex = (size - 1) / bitsPerLong) (hk : k ≤ maxElemIndex) :
    maxBit size maxElemIndex k < bitsPerLong ∧
      (k < maxElemIndex ∧ bitsPerLong * k + maxBit size maxElemIndex k + 1 = bitsPerLong * (k + 1) ∨
        k = maxElemIndex ∧ bitsPerLong * k + maxBit size maxElemIndex k + 1 = size) := by
  rw [maxBit, subWord_one hpos hsize]
  unfold bitsPerLong at hmax ⊢
  split_ifs with hlt
  · exact ⟨by decide, .inl ⟨hlt, by omega⟩⟩
  · exact ⟨Nat.mod_lt _ (by decide), .inr ⟨by omega, by omega⟩⟩

/-- The `while` searches the bitmap from the position on. The counter is right as long as the loop runs;
a `start` past the end may not fit in it. -/
lemma scanSlots_eq {i : ℕ} (hpos : 1 ≤ size) (hsize : size < 2 ^ 31)
    (hmax : maxElemIndex = (size - 1) / bitsPerLong) (hcur : curBit < bitsPerLong)
    (hi : i = bitsPerLong * k + curBit) (hres : k ≤ maxElemIndex → res = i) :
    (scanSlots p invert size maxElemIndex k curBit res).1 =
      next (isBit p (sought invert)) size i := by
  have hend : size ≤ bitsPerLong * (maxElemIndex + 1) := by
    unfold bitsPerLong at hmax ⊢
    omega
  induction hn : maxElemIndex + 1 - k generalizing k curBit res i with
  | zero =>
    have hle : bitsPerLong * (maxElemIndex + 1) ≤ bitsPerLong * k :=
      Nat.mul_le_mul_left bitsPerLong (by omega)
    rw [scanSlots_end (by omega), next_of_le (by omega)]
  | succ n ih =>
    have hk : k ≤ maxElemIndex := by omega
    obtain rfl := hres hk
    obtain ⟨hbit, hstop⟩ := maxBit_cases hpos hsize hmax hk
    generalize hs : bitsPerLong * k + maxBit size maxElemIndex k + 1 = stop at hstop
    have hmul : bitsPerLong * (k + 1) ≤ bitsPerLong * (maxElemIndex + 1) :=
      Nat.mul_le_mul_left bitsPerLong (by omega)
    have hlt63 : bitsPerLong * (maxElemIndex + 1) < 2 ^ 63 := by
      unfold bitsPerLong at hmax ⊢
      omega
    have hslot : (scanSlot p invert k (maxBit size maxElemIndex k) curBit i).1 = _ :=
      scanSlot_eq hbit hi hs.symm (by omega)
    obtain ⟨hlt, rfl⟩ | ⟨rfl, rfl⟩ := hstop
    -- A word before the last one: where its search ends, that of the next word begins.
    · have his : i ≤ bitsPerLong * (k + 1) := by
        rw [mul_add]
        omega
      have hse : bitsPerLong * (k + 1) ≤ size := by
        unfold bitsPerLong at hmax ⊢
        omega
      rw [next_split his hse]
      by_cases h : next (isBit p (sought invert)) (bitsPerLong * (k + 1)) i < bitsPerLong * (k + 1)
      · rw [if_pos h] at hslot ⊢
        rw [scanSlots_ret hk hslot]
      · rw [if_neg h] at hslot ⊢
        rw [scanSlots_next hk hslot]
        exact ih (by decide) (Nat.add_zero _).symm (fun _ => by rw [max_eq_right his]) (by omega)
    -- The last word: its search ends at `size`, or past it if `start` is there.
    · by_cases h : next (isBit p (sought invert)) stop i < stop
      · rw [if_pos h] at hslot
        rw [scanSlots_ret hk hslot]
      · rw [if_neg h] at hslot
        rw [scanSlots_next hk hslot, scanSlots_end (Nat.lt_succ_self k)]
        exact congrArg _ (le_antisymm (not_lt.1 h) next_le)

/-- The `while` reads words up to the last one. -/
lemma scanSlots_reads {k' : ℕ} (h : k' ∈ (scanSlots p invert size maxElemIndex k curBit res).2) :
    k' ≤ maxElemIndex := by
  induction hn : maxElemIndex + 1 - k generalizing k curBit res with
  | zero =>
    rw [scanSlots_end (by omega)] at h
    cases h
  | succ n ih =>
    have hk : k ≤ maxElemIndex := by omega
    cases hs : (scanSlot p invert k (maxBit size maxElemIndex k) curBit res).1 with
    | ret res' =>
      rw [scanSlots_ret hk hs] at h
      exact (scanSlot_reads h).trans_le hk
    | next res' =>
      rw [scanSlots_next hk hs] at h
      cases List.mem_append.1 h with
      | inl h => exact (scanSlot_reads h).trans_le hk
      | inr h => exact ih h (by omega)

end Slots

/-! ## The search -/

/-- `find_next_bit_helper` is the search in the interval, for every `start`. -/
lemma findNextBitHelper_eq (p : Bitmap) (invert : ℤ) (start : ℕ) (hpos : 1 ≤ size)
    (hsize : size < 2 ^ 31) :
    (findNextBitHelper p size start invert).1 = next (isBit p (sought invert)) size start := by
  have hres : start / bitsPerLong ≤ (size - 1) / bitsPerLong → toSigned 64 start = start := by
    intro h
    unfold bitsPerLong at h
    exact toSigned_of_lt (by decide) (by omega)
  have hscan : (scanSlots p invert size ((size - 1) / bitsPerLong) (start / bitsPerLong)
      (start % bitsPerLong) (toSigned 64 start)).1 = next (isBit p (sought invert)) size start :=
    scanSlots_eq hpos hsize rfl (Nat.mod_lt start (by decide))
      (Nat.div_add_mod start bitsPerLong).symm hres
  have hlt : next (isBit p (sought invert)) size start < 2 ^ (32 - 1) := next_le.trans_lt hsize
  simp only [findNextBitHelper, subWord_one hpos hsize, hscan]
  exact toSigned_of_lt (by decide) hlt

/-- No word behind the bitmap is read. -/
lemma findNextBitHelper_reads {k : ℕ} (hpos : 1 ≤ size) (hsize : size < 2 ^ 31)
    (h : k ∈ (findNextBitHelper p size start invert).2) : k ≤ (size - 1) / bitsPerLong := by
  rw [findNextBitHelper, subWord_one hpos hsize] at h
  exact scanSlots_reads h

/-- The outcome of a search from `start` for a bit that is `b`. -/
structure Finds (p : Bitmap) (b size start : ℕ) (out : ℤ × List ℕ) : Prop where
  least : ∀ i, IsLeast {j | start ≤ j ∧ j < size ∧ getBit j p = b} i → out.1 = i
  none : (∀ j, start ≤ j → j < size → getBit j p ≠ b) → out.1 = size
  reads : ∀ k ∈ out.2, k ≤ (size - 1) / 64

/-- The helper finds zeros or ones, as `invert` says. -/
lemma findNextBitHelper_finds (p : Bitmap) (invert : ℤ) (start : ℕ) (hpos : 1 ≤ size)
    (hsize : size < 2 ^ 31) :
    Finds p (sought invert) size start (findNextBitHelper p size start invert) where
  least i h := by
    have h' : IsLeast {j | start ≤ j ∧ j < size ∧ isBit p (sought invert) j = true} i := by
      simpa only [isBit, decide_eq_true_eq] using h
    rw [findNextBitHelper_eq p invert start hpos hsize, next_of_isLeast h']
  none h := by
    have h' : ∀ j, start ≤ j → j < size → isBit p (sought invert) j = false :=
      fun j hj hlt => decide_eq_false (h j hj hlt)
    rw [findNextBitHelper_eq p invert start hpos hsize, next_of_forall h']
  reads _ hk := findNextBitHelper_reads hpos hsize hk

/-- The loop over a search visits what is left to find. -/
lemma visitFrom_eq (p : Bitmap) {fuel : ℕ} (hpos : 1 ≤ size) (hsize : size < 2 ^ 31)
    (hstart : start ≤ size) (hfuel : size - start < fuel) :
    visitFrom p size fuel (next (isBit p 1) size start) =
      some ((hits (isBit p 1) size start).map (↑)) := by
  induction fuel generalizing start with
  | zero => cases hfuel
  | succ fuel ih =>
    have hle : next (isBit p 1) size start ≤ size := next_le
    have hge : start ≤ next (isBit p 1) size start := le_next hstart
    rw [hits_next hstart, visitFrom, toUnsigned_of_lt (by omega)]
    generalize next (isBit p 1) size start = pos at hle hge
    by_cases hlt : pos < size
    · have hnext : toUnsigned 64 (toSigned 32 ((pos : ℤ) + 1)) = pos + 1 := by
        rw [← Nat.cast_add_one, toSigned_of_lt (by decide) (by omega), toUnsigned_of_lt (by omega)]
      have hfind : (findNextBit p size (pos + 1)).1 = next (isBit p 1) size (pos + 1) :=
        findNextBitHelper_eq p 0 (pos + 1) hpos hsize
      rw [if_pos hlt, if_pos hlt]
      simp only [hnext, hfind]
      rw [ih hlt (by omega)]
      rfl
    · rw [if_neg hlt, if_neg hlt]
      rfl

/-- `find_next_bit` and `find_next_zero_bit` return the least position from `start` on, below `size`,
with a one or a zero, and `size` without one; they read no word behind the bitmap. Hence the loop
`for_each_set_bit` ends and visits the ones below `size`, each of them once and in increasing order. -/
theorem find_next_bit_least (p : Bitmap) (size start : ℕ) (hpos : 1 ≤ size) (hsize : size < 2 ^ 31) :
    Finds p 1 size start (findNextBit p size start) ∧
      Finds p 0 size start (findNextZeroBit p size start) ∧
      ∃ visits : List ℕ,
        (∀ fuel, size < fuel → forEachSetBit p size fuel = some (visits.map (↑))) ∧
        visits.Pairwise (· < ·) ∧ ∀ i, i ∈ visits ↔ i < size ∧ getBit i p = 1 := by
  refine ⟨findNextBitHelper_finds p 0 start hpos hsize, findNextBitHelper_finds p 1 start hpos hsize,
    hits (isBit p 1) size 0, fun fuel hfuel => ?_, hits_pairwise, fun i => ?_⟩
  · have hfirst : (findNextBit p size 0).1 = next (isBit p 1) size 0 :=
      findNextBitHelper_eq p 0 0 hpos hsize
    rw [forEachSetBit, hfirst]
    exact visitFrom_eq p hpos hsize (Nat.zero_le size) hfuel
  · rw [mem_hits, isBit, decide_eq_true_eq]
    exact and_iff_right (Nat.zero_le i)

/-- Two words, with ones at 63 and 65. -/
def twoWords : Bitmap := fun k => if k = 0 then 1#64 <<< 63 else 2#64

/-- A search that ends at the last bit of a word, a `start` too large for the counter, and the loop. -/
theorem find_next_bit_least_two_words :
    Finds twoWords 1 66 6 (findNextBit twoWords 66 6) ∧ (findNextBit twoWords 66 6).1 = 63 ∧
      (findNextBit twoWords 66 (2 ^ 63)).1 = 66 ∧ forEachSetBit twoWords 66 67 = some [63, 65] := by
  refine ⟨?_, by decide +kernel, ?_, by decide +kernel⟩
  · exact (find_next_bit_least twoWords 66 6 (by decide) (by decide)).1
  · apply (find_next_bit_least twoWords 66 (2 ^ 63) (by decide) (by decide)).1.none
    intro j hj hlt
    omega

/-! ## The first one of a word -/

/-- `ctzl` is the position of the first one of a word. -/
lemma ctzl_eq_iff {x : BitVec 64} {n : ℕ} (hn : n < 64) :
    ctzl x = n ↔ x.getLsbD n = true ∧ ∀ i < n, x.getLsbD i = false := by
  rw [ctzl]
  by_cases hx : x = 0
  · rw [if_pos hx, hx]
    refine iff_of_false ?_ fun h => ?_
    · unfold bitsPerLong
      omega
    · exact Bool.noConfusion (h.1.symm.trans BitVec.getLsbD_zero)
  · rw [if_neg hx]
    constructor
    · rintro rfl
      exact ⟨BitVec.getLsbD_true_ctz_of_ne_zero hx, fun i hi => BitVec.getLsbD_false_of_lt_ctz hi⟩
    · rintro ⟨hset, hclear⟩
      apply le_antisymm
      · by_contra hlt
        have hfalse := BitVec.getLsbD_false_of_lt_ctz (not_le.1 hlt)
        exact Bool.noConfusion (hset.symm.trans hfalse)
      · by_contra hlt
        have htrue := BitVec.getLsbD_true_ctz_of_ne_zero hx
        exact Bool.noConfusion (htrue.symm.trans (hclear _ (not_le.1 hlt)))

end KingdoKernel.Bitops
