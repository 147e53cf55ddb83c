import Mathlib

/-!
# Circular doubly linked lists

Rings of nodes threaded through a heap by `next` and `prev` links, with a head node that is part of
the ring. The heap is abstract: `LinkHeap` has the two reads and the two writes, and `Lawful L N` says
that on the nodes of `N` they behave like independent cells. Nothing is assumed about other addresses,
so that the nodes of a byte memory qualify when they do not overlap.

`Ring L N h hd xs` says that the ring of `hd` consists of `xs`, in order. `Ring.insertAfter` and
`Ring.remove` are the two edits, in the order of stores that C implementations use, and `Ring.frame`
carries the rings that an edit does not touch. `Rings L N h S` is a heap of any number of rings without
common nodes; `Rings.insertAfter` and `Rings.remove` say what an edit of one of them does to all.
-/

namespace KingdoKernel

/-- A heap of link cells. -/
structure LinkHeap (H α : Type*) where
  next : H → α → α
  prev : H → α → α
  setNext : H → α → α → H
  setPrev : H → α → α → H

namespace LinkHeap

variable {H α : Type*}

/-- The links of the nodes in `N` are independent cells for values in `N`. -/
structure Lawful [DecidableEq α] (L : LinkHeap H α) (N : Set α) : Prop where
  next_setNext : ∀ h, ∀ a ∈ N, ∀ v ∈ N, ∀ b ∈ N,
    L.next (L.setNext h a v) b = if b = a then v else L.next h b
  prev_setNext : ∀ h, ∀ a ∈ N, ∀ v, ∀ b ∈ N, L.prev (L.setNext h a v) b = L.prev h b
  prev_setPrev : ∀ h, ∀ a ∈ N, ∀ v ∈ N, ∀ b ∈ N,
    L.prev (L.setPrev h a v) b = if b = a then v else L.prev h b
  next_setPrev : ∀ h, ∀ a ∈ N, ∀ v, ∀ b ∈ N, L.next (L.setPrev h a v) b = L.next h b

/-- Make a node a ring of its own. -/
def initRing (L : LinkHeap H α) (h : H) (hd : α) : H :=
  L.setPrev (L.setNext h hd hd) hd hd

/-- Link the node `new` in after `a`. -/
def insertAfter (L : LinkHeap H α) (h : H) (new a : α) : H :=
  let h := L.setNext h new (L.next h a)
  let h := L.setPrev h new a
  let h := L.setPrev h (L.next h a) new
  L.setNext h a new

/-- Unlink a node. -/
def remove (L : LinkHeap H α) (h : H) (n : α) : H :=
  let h := L.setNext h (L.prev h n) (L.next h n)
  L.setPrev h (L.next h n) (L.prev h n)

/-- Consecutive nodes are linked both ways. -/
def Linked (L : LinkHeap H α) (h : H) (l : List α) : Prop :=
  l.IsChain fun x y => L.next h x = y ∧ L.prev h y = x

/-- The ring of `hd` has the nodes `xs`, all different and all in `N`. -/
structure Ring (L : LinkHeap H α) (N : Set α) (h : H) (hd : α) (xs : List α) : Prop where
  linked : L.Linked h (hd :: (xs ++ [hd]))
  nodup : (hd :: xs).Nodup
  nodes : ∀ x ∈ hd :: xs, x ∈ N

variable {L : LinkHeap H α} {N : Set α} {h h' : H} {hd : α} {xs : List α}

/-- Linked nodes stay linked when every pair of neighbours does. -/
lemma Linked.imp {l : List α} (hl : L.Linked h l)
    (H : ∀ x ∈ l.dropLast, ∀ y ∈ l, L.next h x = y → L.prev h y = x →
      L.next h' x = y ∧ L.prev h' y = x) : L.Linked h' l := by
  induction l with
  | nil => exact .nil
  | cons x l ih =>
    cases l with
    | nil => exact .singleton x
    | cons y l =>
      obtain ⟨⟨h1, h2⟩, h3⟩ := List.isChain_cons_cons.1 hl
      refine List.isChain_cons_cons.2 ⟨H x (by simp) y (by simp) h1 h2, ih h3 ?_⟩
      exact fun z hz w hw => H z (by simp [List.dropLast, hz]) w (List.mem_cons_of_mem _ hw)

/-- A ring that avoids the nodes an edit touches is unchanged. -/
lemma Ring.frame (hr : Ring L N h hd xs) (hn : ∀ x ∈ hd :: xs, L.next h' x = L.next h x)
    (hp : ∀ x ∈ hd :: xs, L.prev h' x = L.prev h x) : Ring L N h' hd xs := by
  have hmem : ∀ x ∈ hd :: (xs ++ [hd]), x ∈ hd :: xs := by
    intro x hx
    simp only [List.mem_cons, List.mem_append, List.not_mem_nil, or_false] at hx ⊢
    tauto
  refine ⟨hr.linked.imp fun x hx y hy h1 h2 => ⟨?_, ?_⟩, hr.nodup, hr.nodes⟩
  · rw [hn x (hmem x (List.mem_of_mem_dropLast hx)), h1]
  · rw [hp y (hmem y hy), h2]

section effects

variable [DecidableEq α] (hL : L.Lawful N)
include hL

/-- The `next` links after an insertion. -/
lemma next_insertAfter {new a x : α} (hnew : new ∈ N) (ha : a ∈ N) (hb : L.next h a ∈ N)
    (hx : x ∈ N) (hne : new ≠ a) :
    L.next (L.insertAfter h new a) x =
      if x = a then new else if x = new then L.next h a else L.next h x := by
  have e : L.next (L.setPrev (L.setNext h new (L.next h a)) new a) a = L.next h a := by
    rw [hL.next_setPrev _ _ hnew _ _ ha, hL.next_setNext _ _ hnew _ hb _ ha, if_neg hne.symm]
  simp only [insertAfter, e]
  rw [hL.next_setNext _ _ ha _ hnew _ hx, hL.next_setPrev _ _ hb _ _ hx,
    hL.next_setPrev _ _ hnew _ _ hx, hL.next_setNext _ _ hnew _ hb _ hx]

/-- The `prev` links after an insertion. -/
lemma prev_insertAfter {new a x : α} (hnew : new ∈ N) (ha : a ∈ N) (hb : L.next h a ∈ N)
    (hx : x ∈ N) (hne : new ≠ a) :
    L.prev (L.insertAfter h new a) x =
      if x = L.next h a then new else if x = new then a else L.prev h x := by
  have e : L.next (L.setPrev (L.setNext h new (L.next h a)) new a) a = L.next h a := by
    rw [hL.next_setPrev _ _ hnew _ _ ha, hL.next_setNext _ _ hnew _ hb _ ha, if_neg hne.symm]
  simp only [insertAfter, e]
  rw [hL.prev_setNext _ _ ha _ _ hx, hL.prev_setPrev _ _ hb _ hnew _ hx,
    hL.prev_setPrev _ _ hnew _ ha _ hx, hL.prev_setNext _ _ hnew _ _ hx]

/-- The `next` links after a removal. -/
lemma next_remove {n x : α} (hn : n ∈ N) (hp : L.prev h n ∈ N) (hs : L.next h n ∈ N) (hx : x ∈ N)
    (hne : L.prev h n ≠ n) :
    L.next (L.remove h n) x = if x = L.prev h n then L.next h n else L.next h x := by
  have e1 : L.next (L.setNext h (L.prev h n) (L.next h n)) n = L.next h n := by
    rw [hL.next_setNext _ _ hp _ hs _ hn, if_neg hne.symm]
  simp only [remove, e1]
  rw [hL.next_setPrev _ _ hs _ _ hx, hL.next_setNext _ _ hp _ hs _ hx]

/-- The `prev` links after a removal. -/
lemma prev_remove {n x : α} (hn : n ∈ N) (hp : L.prev h n ∈ N) (hs : L.next h n ∈ N) (hx : x ∈ N)
    (hne : L.prev h n ≠ n) :
    L.prev (L.remove h n) x = if x = L.next h n then L.prev h n else L.prev h x := by
  have e1 : L.next (L.setNext h (L.prev h n) (L.next h n)) n = L.next h n := by
    rw [hL.next_setNext _ _ hp _ hs _ hn, if_neg hne.symm]
  have e2 : L.prev (L.setNext h (L.prev h n) (L.next h n)) n = L.prev h n :=
    hL.prev_setNext _ _ hp _ _ hn
  simp only [remove, e1, e2]
  rw [hL.prev_setPrev _ _ hs _ hp _ hx, hL.prev_setNext _ _ hp _ _ hx]

/-- A node that has been made a ring is an empty one. -/
lemma ring_initRing (hhd : hd ∈ N) : Ring L N (L.initRing h hd) hd [] := by
  refine ⟨List.isChain_cons_cons.2 ⟨⟨?_, ?_⟩, .singleton _⟩, List.nodup_singleton _, ?_⟩
  · rw [initRing, hL.next_setPrev _ _ hhd _ _ hhd, hL.next_setNext _ _ hhd _ hhd _ hhd, if_pos rfl]
  · rw [initRing, hL.prev_setPrev _ _ hhd _ hhd _ hhd, if_pos rfl]
  · intro x hx
    rw [List.mem_singleton.1 hx]
    exact hhd

end effects

/-- The ring, cut at one of its nodes: what precedes it, the node with its successor, and the rest. -/
lemma Ring.cut {A B : List α} {a : α} (hr : Ring L N h hd xs) (e : hd :: xs = A ++ a :: B) :
    ∃ b C, B ++ [hd] = b :: C ∧ L.next h a = b ∧ L.prev h b = a ∧ b ∈ hd :: xs ∧
      L.Linked h (A ++ [a]) ∧ L.Linked h (b :: C) := by
  obtain ⟨b, C, hbC⟩ : ∃ b C, B ++ [hd] = b :: C := by
    cases B with
    | nil => exact ⟨hd, [], rfl⟩
    | cons b B => exact ⟨b, B ++ [hd], rfl⟩
  have e' : hd :: (xs ++ [hd]) = A ++ a :: b :: C := by
    rw [← hbC, ← List.cons_append, e]
    simp
  have hl := hr.linked
  rw [e', Linked, List.isChain_split, List.isChain_cons_cons] at hl
  obtain ⟨h1, ⟨h2, h3⟩, h4⟩ := hl
  refine ⟨b, C, hbC, h2, h3, ?_, h1, h4⟩
  have hb : b ∈ B ++ [hd] := by
    rw [hbC]
    exact List.mem_cons_self
  rw [e]
  rcases List.mem_append.1 hb with hb | hb
  · simp [hb]
  · rw [List.mem_singleton.1 hb, ← e]
    exact List.mem_cons_self

/-- The parts of a ring around a node, and what follows from its nodes being different. -/
lemma Ring.parts {A B C : List α} {a b : α} (hr : Ring L N h hd xs) (e : hd :: xs = A ++ a :: B)
    (hbC : B ++ [hd] = b :: C) :
    (∀ x ∈ A ++ [a], x ∈ hd :: xs) ∧ (∀ x ∈ b :: C, x ∈ hd :: xs) ∧
      a ∉ (A ++ [a]).dropLast ∧ a ∉ (b :: C).dropLast := by
  have hnd := hr.nodup
  rw [e, List.nodup_append, List.nodup_cons] at hnd
  refine ⟨?_, ?_, ?_, ?_⟩
  · intro x hx
    rw [e]
    simp only [List.mem_append, List.mem_cons, List.not_mem_nil, or_false] at hx ⊢
    tauto
  · intro x hx
    rw [← hbC] at hx
    rcases List.mem_append.1 hx with hx | hx
    · rw [e]
      simp [hx]
    · rw [List.mem_singleton.1 hx]
      exact List.mem_cons_self
  · rw [List.dropLast_concat]
    exact fun haA => hnd.2.2 a haA a List.mem_cons_self rfl
  · rw [← hbC, List.dropLast_concat]
    exact hnd.2.1.1

/-- Linking a new node in after a node of the ring. -/
lemma Ring.insertAfter [DecidableEq α] (hL : L.Lawful N) {A B : List α} {a new : α} {ys : List α}
    (hr : Ring L N h hd xs) (e : hd :: xs = A ++ a :: B) (hnew : new ∉ hd :: xs) (hN : new ∈ N)
    (e' : hd :: ys = A ++ a :: new :: B) : Ring L N (L.insertAfter h new a) hd ys := by
  obtain ⟨b, C, hbC, hab, hba, hb, hA, hC⟩ := hr.cut e
  obtain ⟨hAx, hCx, haA, haC⟩ := hr.parts e hbC
  have ha : a ∈ hd :: xs := hAx a (by simp)
  have haN := hr.nodes a ha
  have hbN' : L.next h a ∈ N := hab.symm ▸ hr.nodes b hb
  have hna : new ≠ a := fun ee => hnew (ee ▸ ha)
  have hnb : new ≠ b := fun ee => hnew (ee ▸ hb)
  -- two neighbours other than `a` and `b` keep their links
  have hkeep : ∀ x ∈ hd :: xs, x ≠ a → ∀ y ∈ hd :: xs, L.next h x = y → L.prev h y = x →
      L.next (L.insertAfter h new a) x = y ∧ L.prev (L.insertAfter h new a) y = x := by
    intro x hx hxa y hy h1 h2
    have hyb : y ≠ b := fun ee => hxa (by rw [← h2, ee, hba])
    rw [next_insertAfter hL hN haN hbN' (hr.nodes x hx) hna,
      prev_insertAfter hL hN haN hbN' (hr.nodes y hy) hna, hab, if_neg hxa, if_neg hyb,
      if_neg (fun ee : x = new => hnew (ee ▸ hx)), if_neg (fun ee : y = new => hnew (ee ▸ hy))]
    exact ⟨h1, h2⟩
  refine ⟨?_, ?_, ?_⟩
  · have el : hd :: (ys ++ [hd]) = A ++ a :: new :: b :: C := by
      rw [← hbC, ← List.cons_append, e']
      simp
    rw [el, Linked, List.isChain_split, List.isChain_cons_cons, List.isChain_cons_cons]
    refine ⟨hA.imp fun x hx y hy => ?_, ⟨?_, ?_⟩, ⟨?_, ?_⟩, hC.imp fun x hx y hy => ?_⟩
    · exact hkeep x (hAx x (List.mem_of_mem_dropLast hx)) (fun ee => haA (ee ▸ hx)) y (hAx y hy)
    · rw [next_insertAfter hL hN haN hbN' haN hna, if_pos rfl]
    · rw [prev_insertAfter hL hN haN hbN' hN hna, hab, if_neg hnb, if_pos rfl]
    · rw [next_insertAfter hL hN haN hbN' hN hna, if_neg hna, if_pos rfl, hab]
    · rw [prev_insertAfter hL hN haN hbN' (hr.nodes b hb) hna, hab, if_pos rfl]
    · exact hkeep x (hCx x (List.mem_of_mem_dropLast hx)) (fun ee => haC (ee ▸ hx)) y (hCx y hy)
  · have hperm : (hd :: ys).Perm (new :: (hd :: xs)) := by
      rw [e', e]
      have hmid : (A ++ [a] ++ new :: B).Perm (new :: (A ++ [a] ++ B)) := List.perm_middle
      simpa using hmid
    exact hperm.nodup_iff.2 (List.nodup_cons.2 ⟨hnew, hr.nodup⟩)
  · intro x hx
    rw [e'] at hx
    by_cases hxn : x = new
    · rw [hxn]
      exact hN
    · refine hr.nodes x ?_
      rw [e]
      simp only [List.mem_append, List.mem_cons] at hx ⊢
      tauto

/-- The predecessor of a node of the ring other than its head. -/
lemma Ring.pred {A B : List α} {n : α} (hr : Ring L N h hd (A ++ n :: B)) :
    ∃ D a, hd :: A = D ++ [a] ∧ L.next h a = n ∧ L.prev h n = a ∧ L.Linked h (D ++ [a]) := by
  obtain ⟨b, C, -, -, -, -, hA, -⟩ := hr.cut (A := hd :: A) (a := n) (B := B) rfl
  obtain ⟨D, a, hDa⟩ : ∃ D a, hd :: A = D ++ [a] := by
    rcases List.eq_nil_or_concat (hd :: A) with e | ⟨D, a, e⟩
    · exact absurd e (by simp)
    · exact ⟨D, a, by simpa using e⟩
  have hDan : L.Linked h (D ++ a :: n :: []) := by
    rw [hDa] at hA
    simpa using hA
  rw [Linked, List.isChain_split, List.isChain_cons_cons] at hDan
  exact ⟨D, a, hDa, hDan.2.1.1, hDan.2.1.2, hDan.1⟩

/-- The neighbours of a node of the ring other than its head. -/
lemma Ring.neighbours {A B : List α} {n : α} (hr : Ring L N h hd (A ++ n :: B)) :
    L.prev h n ∈ hd :: (A ++ n :: B) ∧ L.next h n ∈ hd :: (A ++ n :: B) ∧ L.prev h n ≠ n := by
  obtain ⟨b, C, -, hnb, -, hb, -, -⟩ := hr.cut (A := hd :: A) (a := n) (B := B) rfl
  obtain ⟨D, a, hDa, -, hna, -⟩ := hr.pred
  have ha : a ∈ hd :: A := by
    rw [hDa]
    simp
  refine ⟨?_, hnb ▸ hb, ?_⟩
  · rw [hna, ← List.cons_append]
    exact List.mem_append_left _ ha
  · intro e
    have hnd := hr.nodup
    rw [← List.cons_append, List.nodup_append] at hnd
    exact hnd.2.2 a ha n List.mem_cons_self (hna.symm.trans e)

/-- Unlinking a node of the ring other than its head. -/
lemma Ring.remove [DecidableEq α] (hL : L.Lawful N) {A B : List α} {n : α}
    (hr : Ring L N h hd (A ++ n :: B)) : Ring L N (L.remove h n) hd (A ++ B) := by
  obtain ⟨b, C, hbC, hnb, hbn, hb, hA, hC⟩ := hr.cut (A := hd :: A) (a := n) (B := B) rfl
  obtain ⟨hAx, hCx, hnA, hnC⟩ := hr.parts (A := hd :: A) (a := n) (B := B) rfl hbC
  obtain ⟨D, a, hDa, han, hna, hD⟩ := hr.pred
  obtain ⟨hp, hs, hne⟩ := hr.neighbours
  have hmem : ∀ x ∈ D ++ [a], x ∈ hd :: (A ++ n :: B) := by
    intro x hx
    rw [← hDa] at hx
    exact hAx x (List.mem_append_left _ hx)
  have ha : a ∈ hd :: (A ++ n :: B) := hmem a (by simp)
  have hnd := hr.nodup
  rw [← List.cons_append, hDa, List.append_assoc, List.singleton_append, List.nodup_append] at hnd
  have hanot : a ≠ n ∧ a ∉ B := by
    have := (List.nodup_cons.1 hnd.2.1).1
    rw [List.mem_cons, not_or] at this
    exact this
  have hpN : L.prev h n ∈ N := hr.nodes _ hp
  have hsN : L.next h n ∈ N := hr.nodes _ hs
  have hnN := hr.nodes n (by simp)
  have hkeep : ∀ x ∈ hd :: (A ++ n :: B), x ≠ a → x ≠ n → ∀ y ∈ hd :: (A ++ n :: B),
      L.next h x = y → L.prev h y = x →
      L.next (L.remove h n) x = y ∧ L.prev (L.remove h n) y = x := by
    intro x hx hxa hxn y hy h1 h2
    have hyb : y ≠ b := fun ee => hxn (by rw [← h2, ee, hbn])
    rw [next_remove hL hnN hpN hsN (hr.nodes x hx) hne,
      prev_remove hL hnN hpN hsN (hr.nodes y hy) hne, hna, hnb, if_neg hxa, if_neg hyb]
    exact ⟨h1, h2⟩
  refine ⟨?_, ?_, ?_⟩
  · have el : hd :: (A ++ B ++ [hd]) = D ++ a :: b :: C := by
      rw [← hbC, List.append_assoc, ← List.cons_append, hDa]
      simp
    rw [el, Linked, List.isChain_split, List.isChain_cons_cons]
    refine ⟨hD.imp fun x hx y hy => ?_, ⟨?_, ?_⟩, hC.imp fun x hx y hy => ?_⟩
    · rw [List.dropLast_concat] at hx
      have hx' : x ∈ D ++ [a] := List.mem_append_left _ hx
      refine hkeep x (hmem x hx') ?_ ?_ y (hmem y hy)
      · exact fun ee => hnd.2.2 x hx a List.mem_cons_self ee
      · exact fun ee => hnd.2.2 x hx n (by simp) ee
    · rw [next_remove hL hnN hpN hsN (hr.nodes a ha) hne, hna, if_pos rfl, hnb]
    · rw [prev_remove hL hnN hpN hsN (hr.nodes b hb) hne, hnb, if_pos rfl, hna]
    · have hxB : x ∈ B := by
        rw [← hbC, List.dropLast_concat] at hx
        exact hx
      exact hkeep x (hCx x (List.mem_of_mem_dropLast hx)) (fun ee => hanot.2 (ee ▸ hxB))
        (fun ee => hnC (ee ▸ hx)) y (hCx y hy)
  · refine hr.nodup.sublist ?_
    exact (List.Sublist.append_left (List.sublist_cons_self n B) A).cons_cons hd
  · intro x hx
    refine hr.nodes x ?_
    simp only [List.mem_cons, List.mem_append] at hx ⊢
    tauto

/-- Linking a node into a ring writes to the ring and the node only. -/
lemma Ring.links_insertAfter [DecidableEq α] (hL : L.Lawful N) {a new x : α} (hr : Ring L N h hd xs)
    (ha : a ∈ hd :: xs) (hnew : new ∉ hd :: xs) (hN : new ∈ N) (hx : x ∈ N) (hxs : x ∉ hd :: xs)
    (hxn : x ≠ new) :
    L.next (L.insertAfter h new a) x = L.next h x ∧ L.prev (L.insertAfter h new a) x = L.prev h x := by
  obtain ⟨A, B, e⟩ := List.append_of_mem ha
  obtain ⟨b, C, -, hab, -, hb, -, -⟩ := hr.cut e
  have hbN : L.next h a ∈ N := hab.symm ▸ hr.nodes b hb
  have hna : new ≠ a := fun ee => hnew (ee ▸ ha)
  constructor
  · rw [next_insertAfter hL hN (hr.nodes a ha) hbN hx hna, if_neg (fun ee : x = a => hxs (ee ▸ ha)),
      if_neg hxn]
  · rw [prev_insertAfter hL hN (hr.nodes a ha) hbN hx hna, hab,
      if_neg (fun ee : x = b => hxs (ee ▸ hb)), if_neg hxn]

/-- Unlinking a node of a ring writes to the ring only. -/
lemma Ring.links_remove [DecidableEq α] (hL : L.Lawful N) {n x : α} {A B : List α}
    (hr : Ring L N h hd (A ++ n :: B)) (hx : x ∈ N) (hxs : x ∉ hd :: (A ++ n :: B)) :
    L.next (L.remove h n) x = L.next h x ∧ L.prev (L.remove h n) x = L.prev h x := by
  obtain ⟨hp, hs, hne⟩ := hr.neighbours
  have hnN := hr.nodes n (by simp)
  constructor
  · rw [next_remove hL hnN (hr.nodes _ hp) (hr.nodes _ hs) hx hne,
      if_neg (fun ee : x = L.prev h n => hxs (ee ▸ hp))]
  · rw [prev_remove hL hnN (hr.nodes _ hp) (hr.nodes _ hs) hx hne,
      if_neg (fun ee : x = L.next h n => hxs (ee ▸ hs))]

/-- Linking a node into one ring leaves the others alone. -/
lemma Ring.frame_insertAfter [DecidableEq α] (hL : L.Lawful N) {hd' a new : α} {ys : List α}
    (hr : Ring L N h hd xs) (hr' : Ring L N h hd' ys) (ha : a ∈ hd :: xs) (hnew : new ∉ hd :: xs)
    (hN : new ∈ N) (hdisj : ∀ x ∈ hd' :: ys, x ∉ hd :: xs) (hnew' : new ∉ hd' :: ys) :
    Ring L N (L.insertAfter h new a) hd' ys := by
  have hlinks : ∀ x ∈ hd' :: ys, L.next (L.insertAfter h new a) x = L.next h x ∧
      L.prev (L.insertAfter h new a) x = L.prev h x := fun x hx =>
    hr.links_insertAfter hL ha hnew hN (hr'.nodes x hx) (hdisj x hx) fun ee => hnew' (ee ▸ hx)
  exact hr'.frame (fun x hx => (hlinks x hx).1) (fun x hx => (hlinks x hx).2)

/-- Unlinking a node of one ring leaves the others alone. -/
lemma Ring.frame_remove [DecidableEq α] (hL : L.Lawful N) {hd' n : α} {A B ys : List α}
    (hr : Ring L N h hd (A ++ n :: B)) (hr' : Ring L N h hd' ys)
    (hdisj : ∀ x ∈ hd' :: ys, x ∉ hd :: (A ++ n :: B)) : Ring L N (L.remove h n) hd' ys := by
  have hlinks : ∀ x ∈ hd' :: ys, L.next (L.remove h n) x = L.next h x ∧
      L.prev (L.remove h n) x = L.prev h x := fun x hx =>
    hr.links_remove hL (hr'.nodes x hx) (hdisj x hx)
  exact hr'.frame (fun x hx => (hlinks x hx).1) (fun x hx => (hlinks x hx).2)

/-! ## Heaps of rings -/

/-- The heap holds rings without common nodes: `S` gives the nodes of the ring of each head. -/
structure Rings (L : LinkHeap H α) (N : Set α) (h : H) (S : α → Option (List α)) : Prop where
  ring : ∀ {hd xs}, S hd = some xs → Ring L N h hd xs
  disjoint : ∀ {hd hd' xs ys}, S hd = some xs → S hd' = some ys → hd' ≠ hd →
    ∀ x ∈ hd' :: ys, x ∉ hd :: xs

/-- A node of none of the rings. -/
def Unlinked (S : α → Option (List α)) (n : α) : Prop := ∀ hd xs, S hd = some xs → n ∉ hd :: xs

/-- The rings other than the one of `hd` have the same links in both heaps. -/
def SameElsewhere (L : LinkHeap H α) (S : α → Option (List α)) (hd : α) (h h' : H) : Prop :=
  ∀ hd' ys, hd' ≠ hd → S hd' = some ys →
    ∀ x ∈ hd' :: ys, L.next h' x = L.next h x ∧ L.prev h' x = L.prev h x

variable {S : α → Option (List α)}

/-- Rings depend on the links of their nodes only. -/
lemma Rings.frame (hS : L.Rings N h S) (hn : ∀ x ∈ N, L.next h' x = L.next h x)
    (hp : ∀ x ∈ N, L.prev h' x = L.prev h x) : L.Rings N h' S := by
  refine ⟨fun {hd xs} hhd => ?_, hS.disjoint⟩
  have hr := hS.ring hhd
  exact hr.frame (fun x hx => hn x (hr.nodes x hx)) fun x hx => hp x (hr.nodes x hx)

/-- An edit of one ring: it stays a ring, of nodes that are in no other one, and the links of the other
rings are kept. -/
lemma Rings.update [DecidableEq α] {ys : List α} (hS : L.Rings N h S) (hr' : Ring L N h' hd ys)
    (hsame : L.SameElsewhere S hd h h')
    (hapart : ∀ hd' zs, hd' ≠ hd → S hd' = some zs → ∀ x ∈ hd' :: zs, x ∉ hd :: ys) :
    L.Rings N h' (Function.update S hd (some ys)) := by
  have hother : ∀ {k zs}, Function.update S hd (some ys) k = some zs → k ≠ hd → S k = some zs := by
    intro k zs hk hne
    rwa [Function.update_of_ne hne] at hk
  have hown : ∀ {zs}, Function.update S hd (some ys) hd = some zs → ys = zs := by
    intro zs hk
    rw [Function.update_self] at hk
    exact Option.some.inj hk
  constructor
  · intro k zs hk
    by_cases e : k = hd
    · subst e
      rwa [← hown hk]
    · have hSk := hother hk e
      exact (hS.ring hSk).frame (fun x hx => (hsame k zs e hSk x hx).1)
        fun x hx => (hsame k zs e hSk x hx).2
  · intro k k' zs zs' hk hk' hne x hx hx'
    by_cases e : k = hd
    · subst e
      rw [← hown hk] at hx'
      exact hapart k' zs' hne (hother hk' hne) x hx hx'
    · by_cases e' : k' = hd
      · subst e'
        rw [← hown hk'] at hx
        exact hapart k zs e (hother hk e) x hx' hx
      · exact hS.disjoint (hother hk e) (hother hk' e') hne x hx hx'

/-- Linking a node that is in no ring into one of them. -/
lemma Rings.insertAfter [DecidableEq α] (hL : L.Lawful N) {A B ys : List α} {a new : α}
    (hS : L.Rings N h S) (hhd : S hd = some xs) (e : hd :: xs = A ++ a :: B) (hnew : Unlinked S new)
    (hN : new ∈ N) (e' : hd :: ys = A ++ a :: new :: B) :
    L.Rings N (L.insertAfter h new a) (Function.update S hd (some ys)) ∧
      L.SameElsewhere S hd h (L.insertAfter h new a) := by
  have hr := hS.ring hhd
  have ha : a ∈ hd :: xs := by
    rw [e]
    exact List.mem_append_right A List.mem_cons_self
  have hsame : L.SameElsewhere S hd h (L.insertAfter h new a) := by
    intro hd' zs hne hzs x hx
    exact hr.links_insertAfter hL ha (hnew hd xs hhd) hN ((hS.ring hzs).nodes x hx)
      (hS.disjoint hhd hzs hne x hx) fun ee => hnew hd' zs hzs (ee ▸ hx)
  refine ⟨hS.update (hr.insertAfter hL e (hnew hd xs hhd) hN e') hsame ?_, hsame⟩
  intro hd' zs hne hzs x hx hx'
  rw [e'] at hx'
  have hmem : x = new ∨ x ∈ hd :: xs := by
    rw [e]
    simp only [List.mem_append, List.mem_cons] at hx' ⊢
    tauto
  cases hmem with
  | inl ee => exact hnew hd' zs hzs (ee ▸ hx)
  | inr hm => exact hS.disjoint hhd hzs hne x hx hm

/-- Unlinking a node of one of the rings. -/
lemma Rings.remove [DecidableEq α] (hL : L.Lawful N) {A B : List α} {n : α} (hS : L.Rings N h S)
    (hhd : S hd = some (A ++ n :: B)) :
    L.Rings N (L.remove h n) (Function.update S hd (some (A ++ B))) ∧
      L.SameElsewhere S hd h (L.remove h n) := by
  have hr := hS.ring hhd
  have hsame : L.SameElsewhere S hd h (L.remove h n) := by
    intro hd' zs hne hzs x hx
    exact hr.links_remove hL ((hS.ring hzs).nodes x hx) (hS.disjoint hhd hzs hne x hx)
  refine ⟨hS.update (hr.remove hL) hsame ?_, hsame⟩
  intro hd' zs hne hzs x hx hx'
  refine hS.disjoint hhd hzs hne x hx ?_
  simp only [List.mem_append, List.mem_cons] at hx' ⊢
  tauto

end LinkHeap

end KingdoKernel
