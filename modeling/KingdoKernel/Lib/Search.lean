import Mathlib

/-!
# Searching an interval

`next P n i` is the first index from `i` on, below `n`, that satisfies `P`, and `n` if there is none.
`next_of_isLeast` and `next_of_forall` say so, and `next_self`, `next_succ` and `next_split` compute it:
at the first index, past an index, and by searching the interval in two parts. Searching again behind each
index that is found goes through all of them in order (`hits_next`).
-/

namespace KingdoKernel.Search

variable {P : ℕ → Bool} {n m i j : ℕ}

/-- The first index from `i` on, below `n`, with `P`; `n` if there is none. -/
def next (P : ℕ → Bool) (n i : ℕ) : ℕ := ((List.range' i (n - i)).find? P).getD n

/-- The indices from `i` on, below `n`, with `P`, in increasing order. -/
def hits (P : ℕ → Bool) (n i : ℕ) : List ℕ := (List.range' i (n - i)).filter P

/-- A range that is not empty starts with its first element. -/
lemma range'_of_lt (h : i < n) : List.range' i (n - i) = i :: List.range' (i + 1) (n - (i + 1)) := by
  obtain ⟨k, rfl⟩ := Nat.exists_eq_add_of_lt h
  rw [show i + k + 1 - i = k + 1 by omega, show i + k + 1 - (i + 1) = k by omega]
  exact List.range'_succ

/-- There is nothing from the end on. -/
lemma next_of_le (h : n ≤ i) : next P n i = n := by
  rw [next, Nat.sub_eq_zero_of_le h]
  rfl

/-- The search stops at a hit. -/
lemma next_self (h : i < n) (hi : P i = true) : next P n i = i := by
  rw [next, range'_of_lt h, List.find?_cons_of_pos hi]
  rfl

/-- The search goes on after a miss. -/
lemma next_succ (h : i < n) (hi : P i = false) : next P n i = next P n (i + 1) := by
  rw [next, range'_of_lt h, List.find?_cons_of_neg (Bool.eq_false_iff.1 hi)]
  rfl

/-- The search does not go past its end. -/
lemma next_le : next P n i ≤ n := by
  cases h : (List.range' i (n - i)).find? P with
  | none => rw [next, h, Option.getD_none]
  | some j =>
    have := List.mem_range'_1.1 (List.mem_of_find?_eq_some h)
    rw [next, h, Option.getD_some]
    omega

/-- The search for an index that satisfies `P` does not go back. -/
lemma le_next (h : i ≤ n) : i ≤ next P n i := by
  cases e : (List.range' i (n - i)).find? P with
  | none => rwa [next, e, Option.getD_none]
  | some j =>
    rw [next, e, Option.getD_some]
    exact (List.mem_range'_1.1 (List.mem_of_find?_eq_some e)).1

/-- The interval up to `m` may be searched first. -/
lemma next_split (him : i ≤ m) (hmn : m ≤ n) :
    next P n i = if next P m i < m then next P m i else next P n m := by
  induction him using Nat.decreasingInduction with
  | self => rw [next_of_le le_rfl, if_neg (lt_irrefl m)]
  | of_succ i hi ih =>
    cases hP : P i with
    | true => rw [next_self (hi.trans_le hmn) hP, next_self hi hP, if_pos hi]
    | false => rw [next_succ (hi.trans_le hmn) hP, next_succ hi hP, ih]

/-- The search finds the least hit. -/
lemma next_of_isLeast (h : IsLeast {k | i ≤ k ∧ k < n ∧ P k = true} j) : next P n i = j := by
  obtain ⟨⟨hij, hjn, hj⟩, hmin⟩ := h
  have hbefore : ∀ k, i ≤ k → k < j → (!P k) = true := by
    intro k hik hkj
    rw [Bool.not_eq_true']
    by_contra hk
    have := hmin ⟨hik, hkj.trans hjn, Bool.not_eq_false _ ▸ hk⟩
    omega
  have hmem : j ∈ List.range' i (n - i) := List.mem_range'_1.2 ⟨hij, by omega⟩
  rw [next, List.find?_range'_eq_some.2 ⟨hj, hmem, hbefore⟩, Option.getD_some]

/-- Without a hit the search finds the end. -/
lemma next_of_forall (h : ∀ k, i ≤ k → k < n → P k = false) : next P n i = n := by
  rw [next, List.find?_eq_none.2, Option.getD_none]
  intro k hk
  have := List.mem_range'_1.1 hk
  rw [h k this.1 (by omega)]
  exact Bool.false_ne_true

/-- What the hits are. -/
lemma mem_hits : j ∈ hits P n i ↔ i ≤ j ∧ j < n ∧ P j = true := by
  have hmem : j ∈ List.range' i (n - i) ↔ i ≤ j ∧ j < n := by
    rw [List.mem_range'_1]
    omega
  rw [hits, List.mem_filter, hmem, and_assoc]

/-- The hits come in order. -/
lemma hits_pairwise : (hits P n i).Pairwise (· < ·) :=
  List.Pairwise.filter P (List.pairwise_lt_range' 1)

/-- There are no hits from the end on. -/
lemma hits_of_le (h : n ≤ i) : hits P n i = [] := by
  rw [hits, Nat.sub_eq_zero_of_le h]
  rfl

/-- A hit comes first. -/
lemma hits_self (h : i < n) (hi : P i = true) : hits P n i = i :: hits P n (i + 1) := by
  rw [hits, range'_of_lt h, List.filter_cons_of_pos hi]
  rfl

/-- A miss is left out. -/
lemma hits_succ (h : i < n) (hi : P i = false) : hits P n i = hits P n (i + 1) := by
  rw [hits, range'_of_lt h, List.filter_cons_of_neg (Bool.eq_false_iff.1 hi)]
  rfl

/-- The index that is found comes first, and the search behind it goes through the others. -/
lemma hits_next (hi : i ≤ n) :
    hits P n i = if next P n i < n then next P n i :: hits P n (next P n i + 1) else [] := by
  induction hi using Nat.decreasingInduction with
  | self => rw [next_of_le le_rfl, hits_of_le le_rfl, if_neg (lt_irrefl n)]
  | of_succ i hi ih =>
    cases hP : P i with
    | true => rw [next_self hi hP, hits_self hi hP, if_pos hi]
    | false => rw [next_succ hi hP, hits_succ hi hP, ih]

end KingdoKernel.Search
