import KingdoKernel.Lib.Tiles

/-!
# Free lists of dyadic blocks

The two edits of a buddy scheme on the lists themselves, with the order of their entries: `L k` holds
the starts of the free blocks of order `k`. `pop` takes the first block of the lowest list that has one,
from order `k` on, and halves it down to order `k`, each upper half entering its list in front. `push`
gives a block back and joins it with its other half as long as that half is listed.

`push_pop` says that giving back at once what was taken undoes the taking, in every list and position.
It needs that no two listed blocks have one parent (`Settled`): otherwise `push` would join the block
with one that had been listed before.
-/

namespace KingdoKernel.Tiles
open Block

/-- The starts of the listed blocks of each order. -/
abbrev Lists := ℕ → List ℕ

namespace Lists

/-- Take a block of order `k`, looking at the `n` lists from order `k` on. -/
def pop (L : Lists) : (n k : ℕ) → Option (ℕ × Lists)
  | 0, _ => none
  | n + 1, k =>
    match L k with
    | c :: cs => some (c, Function.update L k cs)
    | [] => (L.pop n (k + 1)).map fun (c, L') =>
        (c, Function.update L' k ((c + 2 ^ k) :: L' k))

/-- A listed block of order `k` inside the block of order `k + 1` around `c`. -/
def mate (base : ℕ) (L : Lists) (k c : ℕ) : Option ℕ :=
  (L k).find? fun b => slot base (k + 1) b = slot base (k + 1) c

/-- Give back the block of order `k` at `c`, with `n` orders above `k`. -/
def push (base : ℕ) (L : Lists) : (n c k : ℕ) → Lists
  | 0, c, k => Function.update L k (c :: L k)
  | n + 1, c, k =>
    match mate base L k c with
    | none => Function.update L k (c :: L k)
    | some b => push base (Function.update L k ((L k).erase b)) n (min c b) (k + 1)

/-- Listed blocks are aligned and listed once, and no two of an order below `top` have one parent. -/
structure Settled (base top : ℕ) (L : Lists) : Prop where
  aligned : ∀ k ≤ top, ∀ c ∈ L k, Aligned base ⟨c, k⟩
  nodup : ∀ k ≤ top, (L k).Nodup
  alone : ∀ k < top, ∀ b ∈ L k, ∀ c ∈ L k, slot base (k + 1) b = slot base (k + 1) c → b = c

variable {base : ℕ} {L L' : Lists}

/-- There is no mate when no listed block shares the slot. -/
lemma mate_eq_none {k c : ℕ} :
    mate base L k c = none ↔ ∀ b ∈ L k, slot base (k + 1) b ≠ slot base (k + 1) c := by
  simp [mate]

/-- The only candidate is the one that is found. -/
lemma mate_eq_some {k b c : ℕ} (hb : b ∈ L k) (hs : slot base (k + 1) b = slot base (k + 1) c)
    (hu : ∀ d ∈ L k, slot base (k + 1) d = slot base (k + 1) c → d = b) :
    mate base L k c = some b := by
  cases e : mate base L k c with
  | none => exact absurd hs (mate_eq_none.1 e b hb)
  | some d =>
    have hd := List.find?_some e
    rw [hu d (List.mem_of_find?_eq_some e) (by simpa using hd)]

/-- What is taken is the first block of the first list that has one. -/
lemma pop_fst (L : Lists) (n k : ℕ) :
    (L.pop n k).map Prod.fst = (List.range' k n).findSome? fun j => (L j).head? := by
  induction n generalizing k with
  | zero => rfl
  | succ n ih =>
    rw [List.range'_succ, List.findSome?_cons, pop]
    cases hk : L k with
    | cons c cs => rfl
    | nil =>
      simp only [Option.map_map, List.head?_nil]
      exact ih (k + 1)

/-- Lists below the order asked for are not looked at. -/
lemma pop_below {n k c j : ℕ} (e : L.pop n k = some (c, L')) (hj : j < k) : L' j = L j := by
  induction n generalizing k c L' with
  | zero => cases e
  | succ n ih =>
    cases hk : L k with
    | cons d ds =>
      simp only [pop, hk, Option.some.injEq, Prod.mk.injEq] at e
      rw [← e.2, Function.update_of_ne (by omega)]
    | nil =>
      simp only [pop, hk, Option.map_eq_some_iff, Prod.mk.injEq, Prod.exists] at e
      obtain ⟨d, L₁, e₁, rfl, rfl⟩ := e
      rw [Function.update_of_ne (by omega)]
      exact ih e₁ (by omega)

/-- What is taken is aligned to the order asked for. -/
lemma Settled.pop_aligned {top n k c : ℕ} (h : Settled base top L) (hkn : k + n = top + 1)
    (e : L.pop n k = some (c, L')) : Aligned base ⟨c, k⟩ := by
  induction n generalizing k c L' with
  | zero => cases e
  | succ n ih =>
    cases hk : L k with
    | cons d ds =>
      simp only [pop, hk, Option.some.injEq, Prod.mk.injEq] at e
      rw [← e.1]
      exact h.aligned k (by omega) d (by rw [hk]; exact List.mem_cons_self)
    | nil =>
      simp only [pop, hk, Option.map_eq_some_iff, Prod.mk.injEq, Prod.exists] at e
      obtain ⟨d, L₁, e₁, rfl, rfl⟩ := e
      exact (ih (by omega) e₁).of_le (Nat.le_succ k)

/-- Giving back what was just taken restores every list. -/
lemma Settled.push_pop {top n k c : ℕ} (h : Settled base top L) (hkn : k + n = top)
    (e : L.pop (n + 1) k = some (c, L')) : push base L' n c k = L := by
  induction n generalizing k c L' with
  | zero =>
    cases hk : L k with
    | cons d ds =>
      simp only [pop, hk, Option.some.injEq, Prod.mk.injEq] at e
      obtain ⟨rfl, rfl⟩ := e
      rw [push, Function.update_self, Function.update_idem, ← hk, Function.update_eq_self]
    | nil =>
      simp only [pop, hk, Option.map_none] at e
      cases e
  | succ n ih =>
    cases hk : L k with
    | cons d ds =>
      simp only [pop, hk, Option.some.injEq, Prod.mk.injEq] at e
      obtain ⟨rfl, rfl⟩ := e
      -- the rest of the list has no second block of the parent
      have hnone : mate base (Function.update L k ds) k d = none := by
        rw [mate_eq_none, Function.update_self]
        intro b hb hs
        have hnd := h.nodup k (by omega)
        rw [hk, List.nodup_cons] at hnd
        have hbd := h.alone k (by omega) b (by rw [hk]; exact List.mem_cons_of_mem _ hb) d
          (by rw [hk]; exact List.mem_cons_self) hs
        exact hnd.1 (hbd ▸ hb)
      rw [push, hnone]
      simp only
      rw [Function.update_self, Function.update_idem, ← hk, Function.update_eq_self]
    | nil =>
      rw [pop, hk] at e
      simp only [Option.map_eq_some_iff, Prod.mk.injEq, Prod.exists] at e
      obtain ⟨d, L₁, e₁, rfl, rfl⟩ := e
      have hal : Aligned base ⟨d, k + 1⟩ := h.pop_aligned (by omega) e₁
      have hnil : L₁ k = [] := (pop_below e₁ (Nat.lt_succ_self k)).trans hk
      -- the only entry is the upper half that was listed on the way down
      have hslot : slot base (k + 1) (d + 2 ^ k) = slot base (k + 1) d :=
        hal.mem_iff.1 (mem_pages_succ.2 (.inr (start_mem ⟨d + 2 ^ k, k⟩)))
      have hsome : mate base (Function.update L₁ k ((d + 2 ^ k) :: L₁ k)) k d =
          some (d + 2 ^ k) := by
        refine mate_eq_some ?_ hslot ?_
        · rw [Function.update_self]
          exact List.mem_cons_self
        · rw [Function.update_self, hnil]
          exact fun b hb _ => List.mem_singleton.1 hb
      have hback : Function.update (Function.update L₁ k ((d + 2 ^ k) :: L₁ k)) k
          ((Function.update L₁ k ((d + 2 ^ k) :: L₁ k) k).erase (d + 2 ^ k)) = L₁ := by
        rw [Function.update_self, List.erase_cons_head, Function.update_idem,
          Function.update_eq_self]
      rw [push, hsome]
      simp only
      rw [hback, min_eq_left (Nat.le_add_right d _)]
      exact ih (by omega) e₁

end Lists

end KingdoKernel.Tiles
