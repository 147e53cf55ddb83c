import KingdoKernel.Lib.Machine
import KingdoKernel.PageTable.Tree

/-!
# Walking the tree

What `get_next_ptp` does at an entry of the tree, one lemma for each case: the entry refers to a table
page, it is a block, it is empty, it is empty and a page is allocated. `Fresh` is what the walk relies on
of `get_pages(0)`: a page it returns is a page of the linear map that is not a table page already.
`Mapped` is the invariant of `Tree.lean` for a state, with the pages of the tree accounted for.
`query_leaf`, `query_block` and `query_none` say what `query_in_pgtbl` returns.
-/

namespace KingdoKernel.PageTable
open BitField

section Pte

/-- An entry is invalid when its valid bit is clear. -/
lemma isPteInvalid_iff (pte : ℕ) : isPteInvalid pte = true ↔ table.get pte .isValid = 0 := by
  have h : (1 : ℕ) <<< 0 = 2 ^ 0 := rfl
  rw [isPteInvalid, decide_eq_true_iff, h, and_two_pow_eq_zero_iff]
  rfl

/-- An entry with the valid bit is not invalid. -/
lemma isPteInvalid_eq_false {pte : ℕ} (h : table.get pte .isValid = 1) : isPteInvalid pte = false := by
  rw [Bool.eq_false_iff, ne_eq, isPteInvalid_iff, h]
  exact one_ne_zero

/-- An entry is a table when its table bit is set. -/
lemma isPteTable_iff (pte : ℕ) : isPteTable pte = true ↔ table.get pte .isTable ≠ 0 := by
  have h : (1 : ℕ) <<< 1 = 2 ^ 1 := rfl
  rw [isPteTable, decide_eq_true_iff, h, ne_eq, and_two_pow_eq_zero_iff]
  rfl

/-- The zero entry is invalid. -/
lemma isPteInvalid_zero : isPteInvalid 0 = true := rfl

/-- The address in an entry is the field of the next table. -/
lemma getPaddrInPte_eq (pte : ℕ) : getPaddrInPte pte = table.get pte .nextTableAddr * 4096 := by
  rw [getPaddrInPte, Nat.shiftLeft_eq]
  rfl

/-- The address in an entry has 48 bits. -/
lemma getPaddrInPte_lt (pte : ℕ) : getPaddrInPte pte < 2 ^ 48 := by
  have h : table.get pte .nextTableAddr < 2 ^ 36 := table.get_lt pte .nextTableAddr
  rw [getPaddrInPte_eq]
  omega

/-- The two address macros are inverse to each other. -/
lemma virtToPhys_physToVirt {x : ℕ} (h : x < 2 ^ 64) : virtToPhys (physToVirt x) = x := by
  unfold virtToPhys physToVirt subWord kbase
  omega

/-- Back and forth between physical and kernel addresses. -/
lemma physToVirt_virtToPhys {x : ℕ} (h : x < 2 ^ 64) : physToVirt (virtToPhys x) = x := by
  unfold virtToPhys physToVirt subWord kbase
  omega

/-- The physical address of a kernel address. -/
lemma virtToPhys_of_le {x : ℕ} (h : kbase ≤ x) (hx : x < 2 ^ 64) : virtToPhys x = x - kbase :=
  subWord_of_le hx h

/-- The entry of a table is a word. -/
lemma tablePte_lt (q : ℕ) : tablePte q < 2 ^ 64 :=
  table.set_lt (table.set_lt (table.set_lt (Nat.two_pow_pos 64) _ _) _ _) _ _

/-- The entry written for a page of the linear map refers to that page. -/
lemma tablePte_points {q : ℕ} (hal : q % 4096 = 0) (hle : kbase ≤ q) (hlt : q < 2 ^ 64) :
    Points (tablePte q) q := by
  have hv : table.get (tablePte q) .isValid = 1 := by simp [tablePte, Layout.get_set, table]
  have ht : table.get (tablePte q) .isTable = 1 := by simp [tablePte, Layout.get_set, table]
  have ha : table.get (tablePte q) .nextTableAddr = (virtToPhys q >>> pageShift) % 2 ^ 36 := by
    simp [tablePte, Layout.get_set, table]
  have hphys : getPaddrInPte (tablePte q) = virtToPhys q := by
    rw [getPaddrInPte_eq, ha, Nat.shiftRight_eq_div_pow, virtToPhys_of_le hle hlt]
    unfold kbase at hle ⊢
    unfold pageShift
    omega
  refine ⟨isPteInvalid_eq_false hv, (isPteTable_iff _).2 (by rw [ht]; exact one_ne_zero), ?_⟩
  rw [hphys, physToVirt_virtToPhys hlt]

end Pte

/-- `get_pages(0)` returns pages of the linear map that are not table pages already. -/
structure Fresh (getPages : ℕ → ℕ) (tables : Set ℕ) : Prop where
  aligned : ∀ n, getPages n ≠ 0 → getPages n % 4096 = 0
  linear : ∀ n, getPages n ≠ 0 → kbase ≤ getPages n ∧ getPages n < 2 ^ 64
  notTable : ∀ n, getPages n ≠ 0 → getPages n ∉ tables
  notAgain : ∀ i n, i < n → getPages n ≠ 0 → getPages i ≠ getPages n

/-- An allocator that hands out `n` pages from `KBASE + 4096` on. -/
def pagesFrom (n : ℕ) : ℕ → ℕ := fun i => if i < n then kbase + (i + 1) * 4096 else 0

/-- Pages one after the other are fresh. -/
lemma pagesFrom_fresh {n : ℕ} {tables : Set ℕ} (hn : n < 2 ^ 20)
    (ht : ∀ i < n, kbase + (i + 1) * 4096 ∉ tables) : Fresh (pagesFrom n) tables := by
  have hlt : ∀ i, pagesFrom n i ≠ 0 → i < n ∧ pagesFrom n i = kbase + (i + 1) * 4096 := by
    intro i hi
    unfold pagesFrom at hi ⊢
    split at hi
    · next h => exact ⟨h, if_pos h⟩
    · exact absurd rfl hi
  constructor
  · intro i hi
    obtain ⟨-, e⟩ := hlt i hi
    rw [e]
    unfold kbase
    omega
  · intro i hi
    obtain ⟨h, e⟩ := hlt i hi
    rw [e]
    unfold kbase
    omega
  · intro i hi
    obtain ⟨h, e⟩ := hlt i hi
    rw [e]
    exact ht i h
  · intro i j hij hj e
    obtain ⟨-, ej⟩ := hlt j hj
    obtain ⟨-, ei⟩ := hlt i (e ▸ hj)
    rw [ei, ej] at e
    omega

/-- The state holds the tree `tab`, all of whose pages were given or taken from `get_pages(0)`. -/
structure Mapped (getPages : ℕ → ℕ) (tables : Set ℕ) (B : Blocks) (root : ℕ) (s : State)
    (tab : ℕ → ℕ → Option ℕ) : Prop extends Tree B root s.mem tab where
  known : ∀ {d k p}, tab d k = some p → p ∈ tables ∨ ∃ i < s.taken, getPages i = p

section Next

variable {getPages : ℕ → ℕ} {tables : Set ℕ} {B : Blocks} {root : ℕ} {s s' : State}
  {tab : ℕ → ℕ → Option ℕ} {l : Level} {va p q b : ℕ} {alloc : Bool}

/-- A valid entry is followed. -/
lemma getNextPtp_of_valid (hp : IsPage p) (hv : isPteInvalid (ent s.mem p (getIndex l va)) = false) :
    getNextPtp getPages p l va alloc s = (.ok (foundPtp (entAddr p (getIndex l va)) s), s) := by
  have hv' : isPteInvalid (s.mem.load (entAddr p (getIndex l va)) 8) = false := hv
  simp only [getNextPtp, hp.1.ne', hv', reduceIte, Bool.false_eq_true]

/-- The walk stops at an invalid entry. -/
lemma getNextPtp_of_invalid (hp : IsPage p) (hv : isPteInvalid (ent s.mem p (getIndex l va)) = true) :
    getNextPtp getPages p l va false s = (.error (-enomem), s) := by
  have hv' : isPteInvalid (s.mem.load (entAddr p (getIndex l va)) 8) = true := hv
  simp only [getNextPtp, hp.1.ne', hv', reduceIte]

/-- The walk goes on at the table page below. -/
lemma getNextPtp_child (h : Tree B root s.mem tab) (hd : depth l < 3)
    (hp : tab (depth l) (key l va / 512) = some p) (hq : tab (depth l + 1) (key l va) = some q) :
    getNextPtp getPages p l va alloc s = (.ok ⟨.normalPtp, q, entAddr p (getIndex l va)⟩, s) := by
  obtain ⟨hv, ht, ha⟩ := h.child hd hp hq
  rw [← getIndex_eq] at hv ht ha
  unfold ent at ht ha
  rw [getNextPtp_of_valid (h.page hp) hv, foundPtp, ht, ha, if_pos rfl]

/-- At a block entry. -/
lemma getNextPtp_block (h : Tree B root s.mem tab) (hb : B.entry (depth l) (key l va) = some b)
    (hp : tab (depth l) (key l va / 512) = some p) :
    getNextPtp getPages p l va alloc s =
      (.ok ⟨.blockPtp, physToVirt (getPaddrInPte b), entAddr p (getIndex l va)⟩, s) := by
  obtain ⟨hd, -, hnone⟩ := h.block hb
  obtain ⟨hv, ht⟩ := B.valid hb
  have he : ent s.mem p (getIndex l va) = b := by
    rw [getIndex_eq, h.empty hd hp hnone, hb, Option.getD_some]
  have hl : s.mem.load (entAddr p (getIndex l va)) 8 = b := he
  rw [getNextPtp_of_valid (h.page hp) (by rw [he]; exact hv), foundPtp, hl, ht,
    if_neg Bool.false_ne_true]

/-- An entry with neither a page nor a block below it is invalid. -/
lemma ent_invalid (h : Tree B root s.mem tab) (hd : depth l < 3)
    (hp : tab (depth l) (key l va / 512) = some p) (hq : tab (depth l + 1) (key l va) = none)
    (hb : B.entry (depth l) (key l va) = none) :
    isPteInvalid (ent s.mem p (getIndex l va)) = true := by
  rw [getIndex_eq, h.empty hd hp hq, hb]
  exact isPteInvalid_zero

/-- The state after a page table page has been allocated below the entry at `entry`. -/
def State.grow (s : State) (entry q : ℕ) : State :=
  ⟨(s.mem.memset q 0 pageSize).store entry 8 (tablePte q), s.taken + 1, s.rss.map (· + pageSize)⟩

/-- At an empty entry with `alloc` a page is taken. -/
lemma getNextPtp_alloc (hp : IsPage p) (hv : isPteInvalid (ent s.mem p (getIndex l va)) = true) :
    getNextPtp getPages p l va true s =
      if getPages s.taken = 0 then (.error (-enomem), { s with taken := s.taken + 1 })
      else (.ok (foundPtp (entAddr p (getIndex l va))
          (s.grow (entAddr p (getIndex l va)) (getPages s.taken))),
        s.grow (entAddr p (getIndex l va)) (getPages s.taken)) := by
  have hv' : isPteInvalid (s.mem.load (entAddr p (getIndex l va)) 8) = true := hv
  simp only [getNextPtp, hp.1.ne', hv', reduceIte, Bool.true_eq_false]
  rfl

/-- A page just allocated is what the walk goes on with. -/
lemma foundPtp_grow (entry : ℕ) (hpt : Points (tablePte q) q) :
    foundPtp entry (s.grow entry q) = ⟨.normalPtp, q, entry⟩ := by
  obtain ⟨-, ht, ha⟩ := hpt
  have hl : (s.grow entry q).mem.load entry 8 = tablePte q :=
    Mem.load_store_of_lt (by norm_num; exact tablePte_lt q)
  rw [foundPtp, hl, ht, ha, if_pos rfl]

/-- What a page from `get_pages(0)` is good for. -/
lemma Fresh.points (hf : Fresh getPages tables) {n : ℕ} (hn : getPages n ≠ 0) :
    Points (tablePte (getPages n)) (getPages n) :=
  tablePte_points (hf.aligned n hn) (hf.linear n hn).1 (hf.linear n hn).2

/-- A page that `get_pages` has returned. -/
lemma Fresh.isPage (hf : Fresh getPages tables) {n : ℕ} (hn : getPages n ≠ 0) :
    IsPage (getPages n) :=
  ⟨Nat.pos_of_ne_zero hn, hf.aligned n hn⟩

/-- The page returned next is not a page of the tree. -/
lemma Mapped.fresh (hf : Fresh getPages tables) (h : Mapped getPages tables B root s tab)
    (hn : getPages s.taken ≠ 0) (d e : ℕ) : tab d e ≠ some (getPages s.taken) := by
  intro hde
  rcases h.known hde with hmem | ⟨i, hi, hgi⟩
  · exact hf.notTable _ hn hmem
  · exact hf.notAgain i _ hi hn hgi

/-- Allocating a page below an empty entry keeps the invariant. -/
lemma Mapped.grow (hf : Fresh getPages tables) (h : Mapped getPages tables B root s tab)
    (hd : depth l < 3) (hp : tab (depth l) (key l va / 512) = some p)
    (hnone : tab (depth l + 1) (key l va) = none) (hb : B.entry (depth l) (key l va) = none)
    (hn : getPages s.taken ≠ 0) :
    Mapped getPages tables B root (s.grow (entAddr p (getIndex l va)) (getPages s.taken))
      (addPage tab (depth l + 1) (key l va) (getPages s.taken)) := by
  refine { toTree := ?_, known := ?_ }
  · rw [getIndex_eq]
    exact h.toTree.grow hd hp hnone hb (hf.isPage hn) (h.fresh hf hn) (hf.points hn) (tablePte_lt _)
  · intro d' k' p' h'
    rcases addPage_eq_some h' with ⟨-, -, rfl⟩ | ⟨-, h'⟩
    · exact .inr ⟨s.taken, Nat.lt_succ_self _, rfl⟩
    · rcases h.known h' with hmem | ⟨i, hi, hgi⟩
      · exact .inl hmem
      · exact .inr ⟨i, Nat.lt_succ_of_lt hi, hgi⟩

/-- One level of the walk of `map_range_in_pgtbl_common` that returns: the page below is there, or it is
taken from `get_pages(0)`. -/
lemma Mapped.next_cases (hf : Fresh getPages tables) (h : Mapped getPages tables B root s tab)
    (hd : depth l < 3) (hp : tab (depth l) (key l va / 512) = some p)
    (hr : bugOnRet (getNextPtp getPages p l va true s) = .ok (q, s')) :
    (tab (depth l + 1) (key l va) = some q ∧ s' = s) ∨
    (tab (depth l + 1) (key l va) = none ∧ B.entry (depth l) (key l va) = none ∧
      getPages s.taken ≠ 0 ∧ q = getPages s.taken ∧
      s' = s.grow (entAddr p (getIndex l va)) (getPages s.taken)) := by
  cases hq : tab (depth l + 1) (key l va) with
  | some q0 =>
    rw [getNextPtp_child h.toTree hd hp hq] at hr
    cases hr
    exact .inl ⟨rfl, rfl⟩
  | none =>
    cases hb : B.entry (depth l) (key l va) with
    | some b =>
      rw [getNextPtp_block h.toTree hb hp] at hr
      cases hr
    | none =>
      rw [getNextPtp_alloc (h.page hp) (ent_invalid h.toTree hd hp hq hb)] at hr
      split at hr
      · cases hr
      · next hn =>
        rw [foundPtp_grow _ (hf.points hn)] at hr
        cases hr
        exact .inr ⟨rfl, rfl, hn, rfl, rfl⟩

/-- One level of the walk of `map_range_in_pgtbl_common`: it reaches the page below, and what the tree
holds does not change. -/
lemma Mapped.next (hf : Fresh getPages tables) (h : Mapped getPages tables B root s tab)
    (hd : depth l < 3) (hp : tab (depth l) (key l va / 512) = some p)
    (hr : bugOnRet (getNextPtp getPages p l va true s) = .ok (q, s')) :
    ∃ tab', Mapped getPages tables B root s' tab' ∧ tab' (depth l + 1) (key l va) = some q ∧
      leafAt s'.mem tab' = leafAt s.mem tab := by
  obtain ⟨hq, rfl⟩ | ⟨hq, hb, hn, rfl, rfl⟩ := h.next_cases hf hd hp hr
  · exact ⟨tab, h, hq, rfl⟩
  · refine ⟨_, h.grow hf hd hp hq hb hn, addPage_self, ?_⟩
    rw [getIndex_eq]
    exact h.toTree.leafAt_grow hd hp hq (hf.isPage hn) (h.fresh hf hn)

/-- One level of the walk returns if there is no block in its way and a page to be had. -/
lemma Mapped.next_ok (hf : Fresh getPages tables) (h : Mapped getPages tables B root s tab)
    (hd : depth l < 3) (hp : tab (depth l) (key l va / 512) = some p)
    (hb : B.entry (depth l) (key l va) = none) (hn : getPages s.taken ≠ 0) :
    ∃ q s', bugOnRet (getNextPtp getPages p l va true s) = .ok (q, s') ∧ s'.taken ≤ s.taken + 1 := by
  cases hq : tab (depth l + 1) (key l va) with
  | some q0 =>
    rw [getNextPtp_child h.toTree hd hp hq]
    exact ⟨q0, s, rfl, Nat.le_succ _⟩
  | none =>
    rw [getNextPtp_alloc (h.page hp) (ent_invalid h.toTree hd hp hq hb), if_neg hn,
      foundPtp_grow _ (hf.points hn)]
    exact ⟨_, _, rfl, le_rfl⟩

end Next

section Query

variable {B : Blocks} {root : ℕ} {m : Mem} {tab : ℕ → ℕ → Option ℕ} {x b p p1 p2 p3 : ℕ}

/-- One level of `query_in_pgtbl`. -/
def step (m : Mem) (va ptp : ℕ) (level : Level) : Except ℤ NextPtp :=
  (getNextPtp (fun _ => 0) ptp level va false ⟨m, 0, none⟩).1

/-- A step to a table that exists. -/
lemma step_child (h : Tree B root m tab) {l : Level} {q : ℕ} (hd : depth l < 3)
    (hp : tab (depth l) (key l x / 512) = some p) (hq : tab (depth l + 1) (key l x) = some q) :
    step m x p l = .ok ⟨.normalPtp, q, entAddr p (getIndex l x)⟩ := by
  rw [step, getNextPtp_child (s := ⟨m, 0, none⟩) h hd hp hq]

/-- A step to nothing. -/
lemma step_none (h : Tree B root m tab) {l : Level} (hd : depth l < 3)
    (hp : tab (depth l) (key l x / 512) = some p) (hq : tab (depth l + 1) (key l x) = none)
    (hb : B.entry (depth l) (key l x) = none) : step m x p l = .error (-enomem) := by
  rw [step, getNextPtp_of_invalid (s := ⟨m, 0, none⟩) (h.page hp)
    (ent_invalid (s := ⟨m, 0, none⟩) h hd hp hq hb)]

/-- A step to a block. -/
lemma step_block (h : Tree B root m tab) {l : Level} (hb : B.entry (depth l) (key l x) = some b)
    (hp : tab (depth l) (key l x / 512) = some p) :
    step m x p l = .ok ⟨.blockPtp, physToVirt (getPaddrInPte b), entAddr p (getIndex l x)⟩ := by
  rw [step, getNextPtp_block (s := ⟨m, 0, none⟩) h hb hp]

/-- `query_in_pgtbl` as three levels and a page. -/
lemma queryInPgtbl_eq (m : Mem) (pgtbl x : ℕ) : queryInPgtbl m pgtbl x = (do
    let n0 ← step m x pgtbl .L0
    let n1 ← step m x n0.nextPtp .L1
    if n1.kind = .blockPtp then
      return ((virtToPhys n1.nextPtp + getVaOffset .L1 x) % 2 ^ 64, n1.pte)
    let n2 ← step m x n1.nextPtp .L2
    if n2.kind = .blockPtp then
      return ((virtToPhys n2.nextPtp + getVaOffset .L2 x) % 2 ^ 64, n2.pte)
    let n3 ← step m x n2.nextPtp .L3
    return ((virtToPhys n3.nextPtp + getVaOffset .L3 x) % 2 ^ 64, n3.pte)) := rfl

/-- The root is where every walk starts. -/
lemma Tree.root_page (h : Tree B root m tab) : tab (depth .L0) (key .L0 x / 512) = some root := by
  rw [key_L0_div]
  exact h.root_eq

/-- The offset of an address in what an entry of level `l` maps. -/
lemma getVaOffset_eq (l : Level) (va : ℕ) : getVaOffset l va = va % 2 ^ indexShift l := by
  have h : (perEntryPages l <<< pageShift) - 1 = 2 ^ indexShift l - 1 := by cases l <;> rfl
  rw [getVaOffset, h, Nat.and_two_pow_sub_one_eq_mod]

/-- The physical address `query_in_pgtbl` puts together. -/
lemma paddr_eq (pte : ℕ) (l : Level) (x : ℕ) :
    (virtToPhys (physToVirt (getPaddrInPte pte)) + getVaOffset l x) % 2 ^ 64 =
      getPaddrInPte pte + x % 2 ^ indexShift l := by
  have h1 := getPaddrInPte_lt pte
  have h2 : x % 2 ^ indexShift l < 2 ^ indexShift l := Nat.mod_lt _ (Nat.two_pow_pos _)
  have h3 : 2 ^ indexShift l ≤ 2 ^ 39 := by cases l <;> decide
  rw [virtToPhys_physToVirt (by omega), getVaOffset_eq]
  omega

/-- A valid last-level entry is found. -/
lemma query_leaf (h : Tree B root m tab) (hv : isPteInvalid (leafAt m tab (vpn x)) = false) :
    ∃ e, queryInPgtbl m root x = .ok (getPaddrInPte (leafAt m tab (vpn x)) + x % 4096, e) ∧
      m.load e 8 = leafAt m tab (vpn x) := by
  have hk : vpn x / 512 = key .L2 x := by rw [← key_L3, key_L3_div]
  have hi : getIndex .L3 x = vpn x % 512 := by rw [getIndex_eq, key_L3]
  cases h3 : tab 3 (vpn x / 512) with
  | none =>
    have hleaf : leafAt m tab (vpn x) = 0 := by rw [leafAt, h3]
    rw [hleaf, isPteInvalid_zero] at hv
    cases hv
  | some p3 =>
    have hleaf : leafAt m tab (vpn x) = ent m p3 (vpn x % 512) := by rw [leafAt, h3]
    rw [hk] at h3
    obtain ⟨p2, h2⟩ := h.parent h3
    rw [key_L2_div] at h2
    obtain ⟨p1, h1⟩ := h.parent h2
    rw [key_L1_div] at h1
    have e0 := step_child (l := .L0) (x := x) h (by decide) h.root_page h1
    have e1 := step_child (l := .L1) (x := x) h (by decide) (by rw [key_L1_div]; exact h1) h2
    have e2 := step_child (l := .L2) (x := x) h (by decide) (by rw [key_L2_div]; exact h2) h3
    rw [hleaf, ← hi] at hv
    have e3 : step m x p3 .L3 = .ok (foundPtp (entAddr p3 (getIndex .L3 x)) ⟨m, 0, none⟩) := by
      rw [step, getNextPtp_of_valid (s := ⟨m, 0, none⟩) (h.page h3) hv]
    refine ⟨entAddr p3 (getIndex .L3 x), ?_, by rw [hleaf, hi, ent]⟩
    have hp := paddr_eq (ent m p3 (vpn x % 512)) .L3 x
    rw [queryInPgtbl_eq, e0, hleaf]
    simp only [ok_bind, e1, e2, e3, reduceCtorEq, if_false, pure_eq_ok]
    rw [← hi] at hp ⊢
    exact congrArg (fun a => Except.ok (a, entAddr p3 (getIndex .L3 x))) hp

/-- The value of a block entry in memory. -/
lemma Tree.load_block (h : Tree B root m tab) {l : Level} (hb : B.entry (depth l) (key l x) = some b)
    (hp : tab (depth l) (key l x / 512) = some p) : m.load (entAddr p (getIndex l x)) 8 = b := by
  obtain ⟨hd, -, hnone⟩ := h.block hb
  have he : ent m p (key l x % 512) = b := by rw [h.empty hd hp hnone, hb, Option.getD_some]
  rw [← getIndex_eq] at he
  exact he

/-- A block of level 1 is found. -/
lemma query_block_L1 (h : Tree B root m tab) (hb : B.entry 1 (key .L1 x) = some b) :
    ∃ e, queryInPgtbl m root x = .ok (getPaddrInPte b + x % 2 ^ 30, e) ∧ m.load e 8 = b := by
  obtain ⟨-, ⟨p1, h1⟩, -⟩ := h.block hb
  have h1' := h1
  rw [key_L1_div] at h1'
  have e0 := step_child (l := .L0) (x := x) h (by decide) h.root_page h1'
  have e1 := step_block (l := .L1) (x := x) h hb h1
  have hp := paddr_eq b .L1 x
  refine ⟨entAddr p1 (getIndex .L1 x), ?_, h.load_block (l := .L1) hb h1⟩
  rw [queryInPgtbl_eq, e0]
  simp only [ok_bind, e1, if_true, pure_eq_ok]
  rw [hp]
  rfl

/-- A block of level 2 is found. -/
lemma query_block_L2 (h : Tree B root m tab) (hb : B.entry 2 (key .L2 x) = some b) :
    ∃ e, queryInPgtbl m root x = .ok (getPaddrInPte b + x % 2 ^ 21, e) ∧ m.load e 8 = b := by
  obtain ⟨-, ⟨p2, h2⟩, -⟩ := h.block hb
  have h2' := h2
  rw [key_L2_div] at h2'
  obtain ⟨p1, h1⟩ := h.parent h2'
  have h1' := h1
  rw [key_L1_div] at h1'
  have e0 := step_child (l := .L0) (x := x) h (by decide) h.root_page h1'
  have e1 := step_child (l := .L1) (x := x) h (by decide) h1 h2'
  have e2 := step_block (l := .L2) (x := x) h hb h2
  have hp := paddr_eq b .L2 x
  refine ⟨entAddr p2 (getIndex .L2 x), ?_, h.load_block (l := .L2) hb h2⟩
  rw [queryInPgtbl_eq, e0]
  simp only [ok_bind, e1, e2, if_true, reduceCtorEq, if_false, pure_eq_ok]
  rw [hp]
  rfl

/-- With neither a block nor a valid last-level entry the query fails. -/
lemma query_none (h : Tree B root m tab) (hb1 : B.entry 1 (key .L1 x) = none)
    (hb2 : B.entry 2 (key .L2 x) = none) (hv : isPteInvalid (leafAt m tab (vpn x)) = true) :
    queryInPgtbl m root x = .error (-enomem) := by
  rw [queryInPgtbl_eq]
  cases h1 : tab 1 (key .L0 x) with
  | none =>
    rw [step_none (l := .L0) h (by decide) h.root_page h1 (B.top _)]
    rfl
  | some p1 =>
    have h1' : tab 1 (key .L1 x / 512) = some p1 := by rw [key_L1_div, h1]
    rw [step_child (l := .L0) h (by decide) h.root_page h1, ok_bind]
    cases h2 : tab 2 (key .L1 x) with
    | none =>
      rw [step_none (l := .L1) h (by decide) h1' h2 hb1]
      rfl
    | some p2 =>
      have h2' : tab 2 (key .L2 x / 512) = some p2 := by rw [key_L2_div, h2]
      rw [step_child (l := .L1) h (by decide) h1' h2, ok_bind, if_neg (by simp)]
      cases h3 : tab 3 (key .L2 x) with
      | none =>
        rw [step_none (l := .L2) h (by decide) h2' h3 hb2]
        rfl
      | some p3 =>
        have hk : vpn x / 512 = key .L2 x := by rw [← key_L3, key_L3_div]
        have hi : getIndex .L3 x = vpn x % 512 := by rw [getIndex_eq, key_L3]
        rw [step_child (l := .L2) h (by decide) h2' h3, ok_bind, if_neg (by simp)]
        rw [leafAt, hk, h3] at hv
        rw [step, getNextPtp_of_invalid (s := ⟨m, 0, none⟩) (h.page h3) (by rw [hi]; exact hv)]
        rfl

end Query

end KingdoKernel.PageTable
