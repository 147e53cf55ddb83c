import KingdoKernel.Lib.Memory
import KingdoKernel.Lib.Ring

/-!
# `struct list_head`

Model of `include/common/list.h` over an arbitrary heap of links, and the heap the kernel uses: a
`struct list_head` in memory is the word `prev` followed by the word `next`.

`list_ops_refine`: on a memory of any number of lists the operations are those of sequences.
-/

namespace KingdoKernel.ListHead

section

variable {H α : Type*} (L : LinkHeap H α)

/-- `init_list_head`. -/
def initListHead (h : H) (list : α) : H := L.initRing h list

/-- `list_add`. -/
def listAdd (h : H) (new head : α) : H := L.insertAfter h new head

/-- `list_append`. -/
def listAppend (h : H) (new head : α) : H := listAdd L h new (L.prev h head)

/-- `list_del`. -/
def listDel (h : H) (node : α) : H := L.remove h node

/-- `list_empty`. -/
def listEmpty [DecidableEq α] (h : H) (head : α) : Bool := L.next h head = head

/-- `for_each_in_list`: the nodes visited, unless more than `fuel` of them follow. -/
def forEachInList [DecidableEq α] (h : H) (head : α) : ℕ → α → Option (List α)
  | 0, _ => none
  | fuel + 1, elem =>
    if elem = head then some []
    else (forEachInList h head fuel (L.next h elem)).map (elem :: ·)

/-- A ring is empty when its head points to itself. -/
lemma listEmpty_iff [DecidableEq α] (h : H) (head : α) :
    listEmpty L h head = true ↔ L.next h head = head :=
  decide_eq_true_iff

/-- `list_empty` on a ring. -/
lemma listEmpty_ring [DecidableEq α] {N : Set α} {h : H} {head : α} {xs : List α}
    (hr : L.Ring N h head xs) : listEmpty L h head = true ↔ xs = [] := by
  rw [listEmpty_iff]
  cases xs with
  | nil => exact iff_of_true (List.isChain_cons_cons.1 hr.linked).1.1 rfl
  | cons x xs =>
    refine iff_of_false (fun e => ?_) (List.cons_ne_nil _ _)
    have hx : L.next h head = x := (List.isChain_cons_cons.1 hr.linked).1.1
    exact (List.nodup_cons.1 hr.nodup).1 (List.mem_cons.2 (.inl (e.symm.trans hx)))

/-- From a node on, `for_each_in_list` visits the rest of the ring. -/
lemma forEachInList_of_linked [DecidableEq α] {h : H} {head x : α} {ys : List α} (n : ℕ)
    (hl : L.Linked h (x :: (ys ++ [head]))) (hn : head ∉ ys) :
    forEachInList L h head (ys.length + 1 + n) (L.next h x) = some ys := by
  induction ys generalizing x with
  | nil =>
    have hx : L.next h x = head := (List.isChain_cons_cons.1 hl).1.1
    rw [List.length_nil, Nat.zero_add, Nat.add_comm, forEachInList, if_pos hx]
  | cons y ys ih =>
    obtain ⟨⟨hx, -⟩, hl'⟩ := List.isChain_cons_cons.1 hl
    rw [List.mem_cons, not_or] at hn
    have e : (y :: ys).length + 1 + n = (ys.length + 1 + n) + 1 := by
      simp only [List.length_cons]
      omega
    rw [e, forEachInList, hx, if_neg (Ne.symm hn.1), ih hl' hn.2]
    rfl

/-- `for_each_in_list` visits the nodes of a ring in order. -/
lemma forEachInList_ring [DecidableEq α] {N : Set α} {h : H} {head : α} {xs : List α}
    (hr : L.Ring N h head xs) (n : ℕ) :
    forEachInList L h head (xs.length + 1 + n) (L.next h head) = some xs :=
  forEachInList_of_linked L n hr.linked (List.nodup_cons.1 hr.nodup).1

section refine

open LinkHeap

variable {L} [DecidableEq α] {N : Set α} {h : H} {S : α → Option (List α)} {hd n : α} {xs : List α}

/-- `init_list_head` makes a list of its own. -/
lemma initListHead_refines (hL : L.Lawful N) (hS : L.Rings N h S) (hfree : Unlinked S hd) (hN : hd ∈ N) :
    L.Rings N (initListHead L h hd) (Function.update S hd (some [])) ∧
      L.SameElsewhere S hd h (initListHead L h hd) := by
  have hne : ∀ {hd' ys x}, S hd' = some ys → x ∈ hd' :: ys → x ≠ hd := by
    rintro hd' ys x hys hx rfl
    exact hfree hd' ys hys hx
  have hsame : L.SameElsewhere S hd h (initListHead L h hd) := by
    intro hd' ys _ hys x hx
    have hx' := (hS.ring hys).nodes x hx
    rw [initListHead, initRing, hL.next_setPrev _ _ hN _ _ hx', hL.next_setNext _ _ hN _ hN _ hx',
      if_neg (hne hys hx), hL.prev_setPrev _ _ hN _ hN _ hx', if_neg (hne hys hx),
      hL.prev_setNext _ _ hN _ _ hx']
    exact ⟨rfl, rfl⟩
  refine ⟨hS.update (ring_initRing hL hN) hsame fun hd' zs _ hzs x hx => ?_, hsame⟩
  rw [List.mem_singleton]
  exact hne hzs hx

/-- `list_add` puts a node at the front of a sequence. -/
lemma listAdd_refines (hL : L.Lawful N) (hS : L.Rings N h S) (hhd : S hd = some xs)
    (hn : Unlinked S n) (hN : n ∈ N) :
    L.Rings N (listAdd L h n hd) (Function.update S hd (some (n :: xs))) ∧
      L.SameElsewhere S hd h (listAdd L h n hd) :=
  hS.insertAfter hL (A := []) (B := xs) hhd rfl hn hN rfl

/-- `list_append` puts a node at the back of a sequence. -/
lemma listAppend_refines (hL : L.Lawful N) (hS : L.Rings N h S) (hhd : S hd = some xs)
    (hn : Unlinked S n) (hN : n ∈ N) :
    L.Rings N (listAppend L h n hd) (Function.update S hd (some (xs ++ [n]))) ∧
      L.SameElsewhere S hd h (listAppend L h n hd) := by
  obtain ⟨A, a, e⟩ : ∃ A a, hd :: xs = A ++ [a] :=
    ⟨_, _, (List.dropLast_append_getLast (List.cons_ne_nil hd xs)).symm⟩
  -- the last node of the ring is the one before the head
  have htail : L.prev h hd = a := by
    obtain ⟨b, C, hbC, -, hba, -, -, -⟩ := (hS.ring hhd).cut e
    rw [List.nil_append, List.cons.injEq] at hbC
    rw [hbC.1, hba]
  have e' : hd :: (xs ++ [n]) = A ++ [a, n] := by
    rw [← List.cons_append, e, List.append_assoc]
    rfl
  rw [listAppend, htail]
  exact hS.insertAfter hL hhd e hn hN e'

/-- `list_del` takes a node out of its sequence. -/
lemma listDel_refines (hL : L.Lawful N) (hS : L.Rings N h S) (hhd : S hd = some xs) (hn : n ∈ xs) :
    L.Rings N (listDel L h n) (Function.update S hd (some (xs.erase n))) ∧
      L.SameElsewhere S hd h (listDel L h n) := by
  obtain ⟨A, B, rfl⟩ := List.append_of_mem hn
  have hnA : n ∉ A := by
    have hnd := (List.nodup_cons.1 (hS.ring hhd).nodup).2
    intro hmem
    exact (List.nodup_append.1 hnd).2.2 n hmem n List.mem_cons_self rfl
  have e : (A ++ n :: B).erase n = A ++ B := by
    rw [List.erase_append_right _ hnA, List.erase_cons_head]
  rw [e]
  exact hS.remove hL hhd

end refine

end

/-- The links of the `struct list_head`s in memory. -/
def memLinks : LinkHeap Mem ℕ where
  next m a := m.load (a + 8) 8
  prev m a := m.load a 8
  setNext m a v := m.store (a + 8) 8 v
  setPrev m a v := m.store a 8 v

/-- Addresses that are far enough apart are independent nodes. -/
lemma memLinks_lawful {N : Set ℕ} (hlt : ∀ a ∈ N, a < 2 ^ 64)
    (hsep : ∀ a ∈ N, ∀ b ∈ N, a ≠ b → a + 16 ≤ b ∨ b + 16 ≤ a) : memLinks.Lawful N := by
  refine ⟨?_, ?_, ?_, ?_⟩
  · intro m a ha v hv b hb
    simp only [memLinks]
    split_ifs with e
    · rw [e]
      exact Mem.load_store_of_lt (hlt v hv)
    · exact Mem.load_store_of_disjoint (by have := hsep b hb a ha e; omega)
  · intro m a ha v b hb
    simp only [memLinks]
    by_cases e : b = a
    · exact Mem.load_store_of_disjoint (by omega)
    · exact Mem.load_store_of_disjoint (by have := hsep b hb a ha e; omega)
  · intro m a ha v hv b hb
    simp only [memLinks]
    split_ifs with e
    · rw [e]
      exact Mem.load_store_of_lt (hlt v hv)
    · exact Mem.load_store_of_disjoint (by have := hsep b hb a ha e; omega)
  · intro m a ha v b hb
    simp only [memLinks]
    by_cases e : b = a
    · exact Mem.load_store_of_disjoint (by omega)
    · exact Mem.load_store_of_disjoint (by have := hsep b hb a ha e; omega)

/-- Addresses of `struct list_head`s that do not overlap. -/
structure Nodes (N : Set ℕ) : Prop where
  lt : ∀ a ∈ N, a < 2 ^ 64
  apart : ∀ a ∈ N, ∀ b ∈ N, a ≠ b → a + 16 ≤ b ∨ b + 16 ≤ a

/-- The operations of `list.h` on a memory of any number of disjoint lists are those of sequences; the
links of the lists that an operation is not about are not changed. -/
theorem list_ops_refine {N : Set ℕ} {m : Mem} {S : ℕ → Option (List ℕ)} (hN : Nodes N)
    (hS : memLinks.Rings N m S) :
    (∀ n hd xs, S hd = some xs → n ∈ N → LinkHeap.Unlinked S n →
      memLinks.Rings N (listAdd memLinks m n hd) (Function.update S hd (some (n :: xs))) ∧
      memLinks.SameElsewhere S hd m (listAdd memLinks m n hd) ∧
      memLinks.Rings N (listAppend memLinks m n hd) (Function.update S hd (some (xs ++ [n]))) ∧
      memLinks.SameElsewhere S hd m (listAppend memLinks m n hd)) ∧
    (∀ n hd xs, S hd = some xs → n ∈ xs →
      memLinks.Rings N (listDel memLinks m n) (Function.update S hd (some (xs.erase n))) ∧
      memLinks.SameElsewhere S hd m (listDel memLinks m n)) ∧
    ∀ hd xs, S hd = some xs →
      (listEmpty memLinks m hd = true ↔ xs = []) ∧
      ∀ fuel, xs.length < fuel →
        forEachInList memLinks m hd fuel (memLinks.next m hd) = some xs := by
  have hL := memLinks_lawful hN.lt hN.apart
  refine ⟨fun n hd xs hhd hn hfree => ?_, fun n hd xs hhd hn => ?_, fun hd xs hhd => ⟨?_, ?_⟩⟩
  · obtain ⟨hadd, hadd'⟩ := listAdd_refines hL hS hhd hfree hn
    obtain ⟨happ, happ'⟩ := listAppend_refines hL hS hhd hfree hn
    exact ⟨hadd, hadd', happ, happ'⟩
  · exact listDel_refines hL hS hhd hn
  · exact listEmpty_ring memLinks (hS.ring hhd)
  · intro fuel hfuel
    obtain ⟨k, rfl⟩ := Nat.exists_eq_add_of_le (Nat.succ_le_of_lt hfuel)
    exact forEachInList_ring memLinks (hS.ring hhd) k

/-- The addresses of two heads, 16 and 32, and of three nodes. -/
def exampleNodes : Set ℕ := {16, 32, 48, 64, 80}

/-- The nodes of the list at 16 and those of the list at 32. -/
def twoLists (xs ys : List ℕ) : ℕ → Option (List ℕ) := fun hd =>
  if hd = 16 then some xs else if hd = 32 then some ys else none

/-- Two empty lists. -/
def exampleLists : Mem := initListHead memLinks (initListHead memLinks (fun _ => 0) 16) 32

/-- The addresses of the example do not overlap. -/
lemma exampleNodes_apart : Nodes exampleNodes := by
  refine ⟨?_, ?_⟩
  · rintro a (rfl | rfl | rfl | rfl | rfl) <;> norm_num
  · rintro a (rfl | rfl | rfl | rfl | rfl) b (rfl | rfl | rfl | rfl | rfl) h <;> omega

/-- The first list changes. -/
lemma update_first (xs ys zs : List ℕ) :
    Function.update (twoLists xs ys) 16 (some zs) = twoLists zs ys := by
  funext hd
  by_cases e : hd = 16
  · rw [e, Function.update_self]
    rfl
  · rw [Function.update_of_ne e]
    simp only [twoLists, if_neg e]

/-- The second list changes. -/
lemma update_second (xs ys zs : List ℕ) :
    Function.update (twoLists xs ys) 32 (some zs) = twoLists xs zs := by
  funext hd
  by_cases e : hd = 32
  · rw [e, Function.update_self]
    rfl
  · rw [Function.update_of_ne e]
    simp only [twoLists, if_neg e]

/-- A node of neither list. -/
lemma unlinked_twoLists {xs ys : List ℕ} {n : ℕ} (h1 : n ∉ 16 :: xs) (h2 : n ∉ 32 :: ys) :
    LinkHeap.Unlinked (twoLists xs ys) n := by
  intro hd zs hhd
  by_cases e : hd = 16
  · subst e
    cases hhd
    exact h1
  by_cases e' : hd = 32
  · subst e'
    cases hhd
    exact h2
  · simp [twoLists, e, e'] at hhd

/-- `init_list_head` twice makes two lists. -/
lemma exampleLists_rings : memLinks.Rings exampleNodes exampleLists (twoLists [] []) := by
  have hL := memLinks_lawful exampleNodes_apart.lt exampleNodes_apart.apart
  have h16 : 16 ∈ exampleNodes := .inl rfl
  have h32 : 32 ∈ exampleNodes := .inr (.inl rfl)
  have hnone : memLinks.Rings exampleNodes (fun _ => 0) fun _ => none := ⟨nofun, nofun⟩
  have hfree₀ : LinkHeap.Unlinked (fun _ => (none : Option (List ℕ))) 16 := fun _ _ e => by cases e
  obtain ⟨hone, -⟩ := initListHead_refines hL hnone hfree₀ h16
  have hfree : LinkHeap.Unlinked (Function.update (fun _ => none) 16 (some [])) 32 := by
    intro hd xs hhd
    by_cases e : hd = 16
    · subst e
      cases hhd
      decide
    · rw [Function.update_of_ne e] at hhd
      cases hhd
  obtain ⟨htwo, -⟩ := initListHead_refines hL hone hfree h32
  have e : Function.update (Function.update (fun _ : ℕ => none) 16 (some [])) 32 (some []) =
      twoLists [] [] := by
    funext hd
    by_cases e : hd = 32
    · rw [e, Function.update_self]
      rfl
    by_cases e' : hd = 16
    · rw [Function.update_of_ne e, e', Function.update_self]
      rfl
    · rw [Function.update_of_ne e, Function.update_of_ne e', twoLists, if_neg e', if_neg e]
  rwa [e] at htwo

/-- Nodes are put into two lists, at the front and at the back, and one is taken out. -/
theorem list_ops_refine_first : Nodes exampleNodes ∧
    memLinks.Rings exampleNodes exampleLists (twoLists [] []) ∧
    ∃ m₁ m₂ m₃ m₄, m₁ = listAppend memLinks exampleLists 48 16 ∧
      m₂ = listAppend memLinks m₁ 64 32 ∧ m₃ = listAdd memLinks m₂ 80 16 ∧ m₄ = listDel memLinks m₃ 48 ∧
      memLinks.Rings exampleNodes m₃ (twoLists [80, 48] [64]) ∧
      memLinks.Rings exampleNodes m₄ (twoLists [80] [64]) ∧
      forEachInList memLinks m₄ 16 2 (memLinks.next m₄ 16) = some [80] ∧
      forEachInList memLinks m₄ 32 2 (memLinks.next m₄ 32) = some [64] := by
  have hN := exampleNodes_apart
  have hS₀ := exampleLists_rings
  have hmem : ∀ n ∈ [48, 64, 80], n ∈ exampleNodes := by simp [exampleNodes]
  have hS₁ := ((list_ops_refine hN hS₀).1 48 16 [] rfl (hmem _ (by decide))
    (unlinked_twoLists (by decide) (by decide))).2.2.1
  rw [update_first] at hS₁
  have hS₂ := ((list_ops_refine hN hS₁).1 64 32 [] rfl (hmem _ (by decide))
    (unlinked_twoLists (by decide) (by decide))).2.2.1
  rw [update_second] at hS₂
  have hS₃ := ((list_ops_refine hN hS₂).1 80 16 [48] rfl (hmem _ (by decide))
    (unlinked_twoLists (by decide) (by decide))).1
  rw [update_first] at hS₃
  have hS₄ := ((list_ops_refine hN hS₃).2.1 48 16 [80, 48] rfl (by decide)).1
  rw [update_first] at hS₄
  have hvisit := (list_ops_refine hN hS₄).2.2
  exact ⟨hN, hS₀, _, _, _, _, rfl, rfl, rfl, rfl, hS₃, hS₄, (hvisit 16 [80] rfl).2 2 (by decide),
    (hvisit 32 [64] rfl).2 2 (by decide)⟩

/-- Linking a node in writes to the nodes involved only. -/
lemma insertAfter_of_not_mem {m : Mem} {new a x : ℕ} (hna : a + 16 ≤ new ∨ new + 16 ≤ a)
    (h1 : x < new ∨ new + 16 ≤ x) (h2 : x < a ∨ a + 16 ≤ x)
    (h3 : x < memLinks.next m a ∨ memLinks.next m a + 16 ≤ x) :
    memLinks.insertAfter m new a x = m x := by
  have e : memLinks.next (memLinks.setPrev (memLinks.setNext m new (memLinks.next m a)) new a) a =
      memLinks.next m a := by
    simp only [memLinks]
    rw [Mem.load_store_of_disjoint (by omega), Mem.load_store_of_disjoint (by omega)]
  simp only [LinkHeap.insertAfter, e]
  simp only [memLinks] at h3 ⊢
  rw [Mem.store_of_not_mem (by omega), Mem.store_of_not_mem (by omega),
    Mem.store_of_not_mem (by omega), Mem.store_of_not_mem (by omega)]

/-- Unlinking a node writes to its neighbours only. -/
lemma remove_of_not_mem {m : Mem} {n x : ℕ}
    (hpn : memLinks.prev m n + 16 ≤ n ∨ n + 16 ≤ memLinks.prev m n)
    (h1 : x < memLinks.prev m n ∨ memLinks.prev m n + 16 ≤ x)
    (h2 : x < memLinks.next m n ∨ memLinks.next m n + 16 ≤ x) :
    memLinks.remove m n x = m x := by
  simp only [LinkHeap.remove, memLinks] at *
  rw [Mem.load_store_of_disjoint (by omega), Mem.load_store_of_disjoint (by omega),
    Mem.store_of_not_mem (by omega), Mem.store_of_not_mem (by omega)]

end KingdoKernel.ListHead
