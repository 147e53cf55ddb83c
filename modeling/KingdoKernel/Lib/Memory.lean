import Mathlib

/-!
# Byte memory

A memory is a function from addresses to bytes; words of `n` bytes are stored in little-endian order.
`load_store` and `load_store_of_disjoint` are the two laws of loads after stores, `load_congr` says
which bytes a load depends on, `store_of_not_mem` which bytes a store leaves alone. `memset` fills a
range of bytes. `Chain` is a null-terminated list threaded through the eight-byte words at its elements.
-/

namespace KingdoKernel

/-- The contents of memory. -/
abbrev Mem := ℕ → UInt8

namespace Mem

/-- The `n`-byte word at `a`. -/
def load (m : Mem) (a : ℕ) : ℕ → ℕ
  | 0 => 0
  | n + 1 => (m a).toNat + 256 * load m (a + 1) n

/-- Memory after an `n`-byte word has been stored at `a`. -/
def store (m : Mem) (a n v : ℕ) : Mem := fun x =>
  if a ≤ x ∧ x < a + n then UInt8.ofNat (v / 256 ^ (x - a)) else m x

/-- A load depends on the bytes of its word only. -/
lemma load_congr {m m' : Mem} {a n : ℕ} (h : ∀ x, a ≤ x → x < a + n → m' x = m x) :
    m'.load a n = m.load a n := by
  induction n generalizing a with
  | zero => rfl
  | succ n ih =>
    rw [load, load, h a le_rfl (by omega), ih fun x h1 h2 => h x (by omega) (by omega)]

/-- A store changes the bytes of its word only. -/
lemma store_of_not_mem {m : Mem} {a n v x : ℕ} (h : x < a ∨ a + n ≤ x) :
    m.store a n v x = m x :=
  if_neg (by omega)

/-- A load of a word apart from the one stored. -/
lemma load_store_of_disjoint {m : Mem} {a n v b k : ℕ} (h : b + k ≤ a ∨ a + n ≤ b) :
    (m.store a n v).load b k = m.load b k :=
  load_congr fun _ _ _ => store_of_not_mem (by omega)

/-- A load of the word just stored. -/
lemma load_store (m : Mem) (a n v : ℕ) : (m.store a n v).load a n = v % 256 ^ n := by
  induction n generalizing a v m with
  | zero => simp [load, Nat.mod_one]
  | succ n ih =>
    have hrest : (m.store a (n + 1) v).load (a + 1) n = (m.store (a + 1) n (v / 256)).load (a + 1) n := by
      refine load_congr fun x h1 h2 => ?_
      have e : x - a = x - (a + 1) + 1 := by omega
      rw [store, store, if_pos (by omega), if_pos (by omega), e, pow_succ', Nat.div_div_eq_div_mul]
    have hbyte : (m.store a (n + 1) v a).toNat = v % 256 := by
      simp [store]
    rw [load, hrest, ih, hbyte, pow_succ', Nat.mod_mul]

/-- A word that fits is read back as it was stored. -/
lemma load_store_of_lt {m : Mem} {a n v : ℕ} (h : v < 256 ^ n) : (m.store a n v).load a n = v := by
  rw [load_store, Nat.mod_eq_of_lt h]

/-- A loaded word fits its width. -/
lemma load_lt (m : Mem) (a n : ℕ) : m.load a n < 256 ^ n := by
  induction n generalizing a with
  | zero => simp [load]
  | succ n ih =>
    have h1 := ih (a + 1)
    have h2 := (m a).toNat_lt
    rw [load, pow_succ']
    omega

/-- The bytes of a word. -/
lemma load_div (m : Mem) (a : ℕ) {n k : ℕ} (hk : k < n) :
    m.load a n / 256 ^ k % 256 = (m (a + k)).toNat := by
  induction n generalizing a k with
  | zero => omega
  | succ n ih =>
    have h := (m a).toNat_lt
    rw [load]
    cases k with
    | zero =>
      rw [pow_zero, Nat.div_one]
      change _ = (m a).toNat
      omega
    | succ k =>
      have hdiv : ((m a).toNat + 256 * m.load (a + 1) n) / 256 = m.load (a + 1) n := by omega
      have haddr : a + 1 + k = a + (k + 1) := by omega
      rw [pow_succ', ← Nat.div_div_eq_div_mul, hdiv, ih (a + 1) (by omega), haddr]

/-- A word stored where it already stands. -/
lemma store_load (m : Mem) (a n : ℕ) : m.store a n (m.load a n) = m := by
  funext x
  by_cases hx : a ≤ x ∧ x < a + n
  · have e := m.load_div a (n := n) (k := x - a) (by omega)
    rw [Nat.add_sub_cancel' hx.1] at e
    rw [store, if_pos hx]
    apply UInt8.toNat_inj.1
    rw [UInt8.toNat_ofNat']
    exact e
  · exact if_neg hx

/-- Memory after the words `f 0` to `f (n - 1)` have been stored one after the other from `a` on. -/
def storeWords (m : Mem) (a : ℕ) (f : ℕ → ℕ) : ℕ → Mem
  | 0 => m
  | n + 1 => (m.storeWords a f n).store (a + 8 * n) 8 (f n)

/-- Storing words changes the bytes of their range only. -/
lemma storeWords_of_not_mem {m : Mem} {a n x : ℕ} {f : ℕ → ℕ} (h : x < a ∨ a + 8 * n ≤ x) :
    m.storeWords a f n x = m x := by
  induction n with
  | zero => rfl
  | succ n ih => rw [storeWords, store_of_not_mem (by omega), ih (by omega)]

/-- The words are read back where they were stored. -/
lemma load_storeWords {m : Mem} {a n k : ℕ} {f : ℕ → ℕ} (hk : k < n) (hf : f k < 2 ^ 64) :
    (m.storeWords a f n).load (a + 8 * k) 8 = f k := by
  induction n with
  | zero => omega
  | succ n ih =>
    rcases Nat.lt_succ_iff_lt_or_eq.1 hk with hlt | rfl
    · rw [storeWords, load_store_of_disjoint (by omega), ih hlt]
    · exact load_store_of_lt (by omega)

/-- Memory after the `n` bytes from `a` on have been set to `c`. -/
def memset (m : Mem) (a : ℕ) (c : UInt8) (n : ℕ) : Mem := fun x =>
  if a ≤ x ∧ x < a + n then c else m x

/-- `memset` changes the bytes of its range only. -/
lemma load_memset_of_disjoint {m : Mem} {a n b k : ℕ} {c : UInt8} (h : b + k ≤ a ∨ a + n ≤ b) :
    (m.memset a c n).load b k = m.load b k :=
  load_congr fun _ _ _ => if_neg (by omega)

/-- A word of zero bytes. -/
lemma load_eq_zero {m : Mem} {a n : ℕ} (h : ∀ x, a ≤ x → x < a + n → m x = 0) : m.load a n = 0 := by
  induction n generalizing a with
  | zero => rfl
  | succ n ih => rw [load, h a le_rfl (by omega), ih fun x h1 h2 => h x (by omega) (by omega)]; rfl

/-- A word of cleared memory. -/
lemma load_memset_zero {m : Mem} {a n b k : ℕ} (h1 : a ≤ b) (h2 : b + k ≤ a + n) :
    (m.memset a 0 n).load b k = 0 :=
  load_eq_zero fun _ _ _ => if_pos (by omega)

/-- The null-terminated list `bs` whose first element is `p`: the word at an element is the next one. -/
def Chain (m : Mem) : ℕ → List ℕ → Prop
  | p, [] => p = 0
  | p, b :: bs => p = b ∧ b ≠ 0 ∧ Chain m (m.load b 8) bs

/-- A chain depends on the link words of its elements only. -/
lemma Chain.congr {m m' : Mem} {p : ℕ} {bs : List ℕ} (h : Chain m p bs)
    (hw : ∀ b ∈ bs, m'.load b 8 = m.load b 8) : Chain m' p bs := by
  induction bs generalizing p with
  | nil => exact h
  | cons b bs ih =>
    obtain ⟨rfl, h0, hc⟩ := h
    refine ⟨rfl, h0, ?_⟩
    rw [hw p List.mem_cons_self]
    exact ih hc fun c hcm => hw c (List.mem_cons_of_mem _ hcm)

end Mem

end KingdoKernel
