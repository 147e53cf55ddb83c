import KingdoKernel.PageTable.Basic

/-!
# The tree of table pages

`key l va` is the position of the entry for `va` among all entries of level `l`; an entry and the table
page it refers to have the same key. A page table in memory is described by `tab`, where `tab d k` is the
table page of depth `d` and key `k`, and by the block entries `Blocks`. `Tree` is the invariant: the
pages are distinct, an entry above the last level refers to the page `tab` says or is a block or zero.
`Tree.grow` is the step that links a fresh page, `Tree.setLeaf` the step that writes a last-level entry.
`leafAt` is what the tree holds for a page number.
-/

namespace KingdoKernel.PageTable
open BitField

/-- The number of the page `va` lies in: bits 12 to 47. -/
def vpn (va : ℕ) : ℕ := va / 4096 % 2 ^ 36

/-- The depth of the table pages of a level. -/
def depth : Level → ℕ
  | .L0 => 0
  | .L1 => 1
  | .L2 => 2
  | .L3 => 3

/-- The position of the entry for `va` among the entries of its level. -/
def key (l : Level) (va : ℕ) : ℕ := va % 2 ^ 48 / 2 ^ indexShift l

/-- The bits below the index of level 0. -/
lemma indexShift_L0 : indexShift .L0 = 39 := rfl

/-- The bits below the index of level 1. -/
lemma indexShift_L1 : indexShift .L1 = 30 := rfl

/-- The bits below the index of level 2. -/
lemma indexShift_L2 : indexShift .L2 = 21 := rfl

/-- The bits below the index of level 3. -/
lemma indexShift_L3 : indexShift .L3 = 12 := rfl

/-- The index of an entry in its page is its key modulo the size of a page. -/
lemma getIndex_eq (l : Level) (va : ℕ) : getIndex l va = key l va % 512 := by
  have hmask : ptpIndexMask = 2 ^ 9 - 1 := rfl
  rw [getIndex, hmask, Nat.and_two_pow_sub_one_eq_mod, Nat.shiftRight_eq_div_pow, key]
  cases l with
  | L0 => rw [indexShift_L0]; omega
  | L1 => rw [indexShift_L1]; omega
  | L2 => rw [indexShift_L2]; omega
  | L3 => rw [indexShift_L3]; omega

/-- Paths to level 0 start at the root. -/
lemma key_L0_div (va : ℕ) : key .L0 va / 512 = 0 := by
  rw [key, indexShift_L0]; omega

/-- A path to level 1 extends one to level 0. -/
lemma key_L1_div (va : ℕ) : key .L1 va / 512 = key .L0 va := by
  rw [key, key, indexShift_L1, indexShift_L0]; omega

/-- A path to level 2 extends one to level 1. -/
lemma key_L2_div (va : ℕ) : key .L2 va / 512 = key .L1 va := by
  rw [key, key, indexShift_L2, indexShift_L1]; omega

/-- A path to level 3 extends one to level 2. -/
lemma key_L3_div (va : ℕ) : key .L3 va / 512 = key .L2 va := by
  rw [key, key, indexShift_L3, indexShift_L2]; omega

/-- A path to level 3 is a page number. -/
lemma key_L3 (va : ℕ) : key .L3 va = vpn va := by
  rw [key, vpn, indexShift_L3]; omega

/-- The page number of an address has 36 bits. -/
lemma vpn_lt (va : ℕ) : vpn va < 2 ^ 36 := Nat.mod_lt _ (Nat.two_pow_pos _)

/-- Entry `i` of the table page at `p`. -/
def ent (m : Mem) (p i : ℕ) : ℕ := m.load (entAddr p i) 8

/-- A page that can hold a table. -/
def IsPage (p : ℕ) : Prop := 0 < p ∧ p % 4096 = 0

section Ent

variable {m : Mem} {p q i j v : ℕ}

/-- The entry that has just been written. -/
lemma ent_store_self (hv : v < 2 ^ 64) : ent (m.store (entAddr p i) 8 v) p i = v :=
  Mem.load_store_of_lt (by norm_num; exact hv)

/-- A store to one entry leaves the others. -/
lemma ent_store_of_ne (hp : IsPage p) (hq : IsPage q) (hi : i < 512) (hj : j < 512)
    (hne : q ≠ p ∨ j ≠ i) : ent (m.store (entAddr p i) 8 v) q j = ent m q j := by
  obtain ⟨-, hp⟩ := hp
  obtain ⟨-, hq⟩ := hq
  apply Mem.load_store_of_disjoint
  unfold entAddr
  omega

/-- The entries of a cleared table. -/
lemma ent_memset_self (hi : i < 512) : ent (m.memset p 0 pageSize) p i = 0 := by
  apply Mem.load_memset_zero
  · unfold entAddr; omega
  · unfold entAddr pageSize; omega

/-- Clearing one page leaves the entries of the others. -/
lemma ent_memset_of_ne (hp : IsPage p) (hq : IsPage q) (hj : j < 512) (hne : q ≠ p) :
    ent (m.memset p 0 pageSize) q j = ent m q j := by
  obtain ⟨-, hp⟩ := hp
  obtain ⟨-, hq⟩ := hq
  apply Mem.load_memset_of_disjoint
  unfold entAddr pageSize
  omega

end Ent

/-- The entry `pte` refers to the table page at `q`. -/
def Points (pte q : ℕ) : Prop :=
  isPteInvalid pte = false ∧ isPteTable pte = true ∧ physToVirt (getPaddrInPte pte) = q

/-- Block entries by depth and key; the walk does not know blocks of depth 0. -/
structure Blocks where
  entry : ℕ → ℕ → Option ℕ
  valid : ∀ {d e b}, entry d e = some b → isPteInvalid b = false ∧ isPteTable b = false
  top : ∀ e, entry 0 e = none

/-- No block entries. -/
def Blocks.empty : Blocks where
  entry _ _ := none
  valid h := nomatch h
  top _ := rfl

/-- The page table with root page `root` that `tab` and `B` describe. -/
structure Tree (B : Blocks) (root : ℕ) (m : Mem) (tab : ℕ → ℕ → Option ℕ) : Prop where
  root_eq : tab 0 0 = some root
  page : ∀ {d k p}, tab d k = some p → IsPage p
  inj : ∀ {d k d' k' p}, tab d k = some p → tab d' k' = some p → d = d' ∧ k = k'
  parent : ∀ {d e q}, tab (d + 1) e = some q → ∃ p, tab d (e / 512) = some p
  child : ∀ {d e p q}, d < 3 → tab d (e / 512) = some p → tab (d + 1) e = some q →
    Points (ent m p (e % 512)) q
  empty : ∀ {d e p}, d < 3 → tab d (e / 512) = some p → tab (d + 1) e = none →
    ent m p (e % 512) = (B.entry d e).getD 0
  block : ∀ {d e b}, B.entry d e = some b → d < 3 ∧ (∃ p, tab d (e / 512) = some p) ∧
    tab (d + 1) e = none

/-- The last-level entry for a page number, zero if there is no last-level table for it. -/
def leafAt (m : Mem) (tab : ℕ → ℕ → Option ℕ) (v : ℕ) : ℕ :=
  match tab 3 (v / 512) with
  | some p => ent m p (v % 512)
  | none => 0

/-- `tab` with one more page. -/
def addPage (tab : ℕ → ℕ → Option ℕ) (d e q : ℕ) : ℕ → ℕ → Option ℕ := fun d' e' =>
  if d' = d ∧ e' = e then some q else tab d' e'

section AddPage

variable {tab : ℕ → ℕ → Option ℕ} {d e q d' e' p : ℕ}

/-- The table that has been added. -/
@[simp] lemma addPage_self : addPage tab d e q d e = some q := if_pos ⟨rfl, rfl⟩

/-- The other tables are kept. -/
lemma addPage_of_ne (h : ¬ (d' = d ∧ e' = e)) : addPage tab d e q d' e' = tab d' e' := if_neg h

/-- A page of the extended tree is the new one or an old one. -/
lemma addPage_eq_some (h : addPage tab d e q d' e' = some p) :
    (d' = d ∧ e' = e ∧ p = q) ∨ (¬ (d' = d ∧ e' = e) ∧ tab d' e' = some p) := by
  unfold addPage at h
  split at h
  · next hde =>
    cases h
    exact .inl ⟨hde.1, hde.2, rfl⟩
  · next hde => exact .inr ⟨hde, h⟩

/-- Old pages stay. -/
lemma exists_addPage (h : tab d' e' = some p) : ∃ p', addPage tab d e q d' e' = some p' := by
  by_cases hnew : d' = d ∧ e' = e
  · exact ⟨q, if_pos hnew⟩
  · exact ⟨p, (addPage_of_ne hnew).trans h⟩

end AddPage

namespace Tree

variable {B : Blocks} {root : ℕ} {m : Mem} {tab : ℕ → ℕ → Option ℕ} {d e p q pte v : ℕ}

/-- Linking the fresh page `q` below an empty entry. -/
lemma grow (h : Tree B root m tab) (hd : d < 3) (hp : tab d (e / 512) = some p)
    (hnone : tab (d + 1) e = none) (hb : B.entry d e = none) (hq : IsPage q)
    (hfresh : ∀ d' e', tab d' e' ≠ some q) (hpte : Points pte q) (hlt : pte < 2 ^ 64) :
    Tree B root ((m.memset q 0 pageSize).store (entAddr p (e % 512)) 8 pte) (addPage tab (d + 1) e q) := by
  have hi : ∀ x, x % 512 < 512 := fun x => Nat.mod_lt _ (by norm_num)
  have hpq : p ≠ q := fun hpq => hfresh _ _ (hpq ▸ hp)
  have hold : ∀ {d2 e2 p2}, tab d2 (e2 / 512) = some p2 → ¬ (d2 = d ∧ e2 = e) →
      ent ((m.memset q 0 pageSize).store (entAddr p (e % 512)) 8 pte) p2 (e2 % 512) =
        ent m p2 (e2 % 512) := by
    intro d2 e2 p2 h2 hne
    have hne2 : p2 ≠ q := fun h2q => hfresh _ _ (h2q ▸ h2)
    rw [ent_store_of_ne (h.page hp) (h.page h2) (hi _) (hi _),
      ent_memset_of_ne hq (h.page h2) (hi _) hne2]
    by_contra hcon
    rw [not_or, not_not, not_not] at hcon
    obtain ⟨rfl, hmod⟩ := hcon
    obtain ⟨rfl, hdiv⟩ := h.inj h2 hp
    exact hne ⟨rfl, by omega⟩
  constructor
  case root_eq => rw [addPage_of_ne (by omega), h.root_eq]
  case page =>
    intro d2 k2 p2 h2
    rcases addPage_eq_some h2 with ⟨-, -, rfl⟩ | ⟨-, h2⟩
    · exact hq
    · exact h.page h2
  case inj =>
    intro d2 k2 d3 k3 p2 h2 h3
    rcases addPage_eq_some h2 with ⟨rfl, rfl, rfl⟩ | ⟨-, h2'⟩
    · rcases addPage_eq_some h3 with ⟨rfl, rfl, -⟩ | ⟨-, h3'⟩
      · exact ⟨rfl, rfl⟩
      · exact absurd h3' (hfresh _ _)
    · rcases addPage_eq_some h3 with ⟨rfl, rfl, rfl⟩ | ⟨-, h3'⟩
      · exact absurd h2' (hfresh _ _)
      · exact h.inj h2' h3'
  case parent =>
    intro d2 e2 q2 h2
    rcases addPage_eq_some h2 with ⟨hd2, rfl, -⟩ | ⟨-, h2⟩
    · cases hd2
      exact exists_addPage hp
    · obtain ⟨p2, hp2⟩ := h.parent h2
      exact exists_addPage hp2
  case child =>
    intro d2 e2 p2 q2 hd2 hp2 hq2
    rcases addPage_eq_some hq2 with ⟨hd', rfl, rfl⟩ | ⟨hne, hq2'⟩
    · -- the new page, below the entry just written
      cases hd'
      rw [addPage_of_ne (by omega), hp] at hp2
      cases hp2
      rw [ent_store_self hlt]
      exact hpte
    · rcases addPage_eq_some hp2 with ⟨rfl, rfl, -⟩ | ⟨-, hp2'⟩
      · -- a new page has no children
        obtain ⟨p3, hp3⟩ := h.parent hq2'
        rw [hnone] at hp3
        cases hp3
      · rw [hold hp2' (by omega)]
        exact h.child hd2 hp2' hq2'
  case empty =>
    intro d2 e2 p2 hd2 hp2 hq2
    have hne : ¬ (d2 = d ∧ e2 = e) := by
      rintro ⟨rfl, rfl⟩
      rw [addPage_self] at hq2
      cases hq2
    rw [addPage_of_ne (by omega)] at hq2
    rcases addPage_eq_some hp2 with ⟨rfl, rfl, rfl⟩ | ⟨-, hp2⟩
    · -- a new page is zero
      have hnb : B.entry (d + 1) e2 = none := by
        cases hb2 : B.entry (d + 1) e2 with
        | none => rfl
        | some b =>
          obtain ⟨-, ⟨p3, hp3⟩, -⟩ := h.block hb2
          rw [hnone] at hp3
          cases hp3
      rw [ent_store_of_ne (h.page hp) hq (hi _) (hi _) (.inl hpq.symm), ent_memset_self (hi _), hnb]
      rfl
    · rw [hold hp2 hne]
      exact h.empty hd2 hp2 hq2
  case block =>
    intro d2 e2 b hb2
    obtain ⟨hd2, ⟨p2, hp2⟩, hn2⟩ := h.block hb2
    have hne : ¬ (d2 + 1 = d + 1 ∧ e2 = e) := by
      rintro ⟨hdd, rfl⟩
      cases hdd
      rw [hb] at hb2
      cases hb2
    exact ⟨hd2, exists_addPage hp2, by rw [addPage_of_ne hne, hn2]⟩

/-- Linking a fresh page does not change what the tree holds. -/
lemma leafAt_grow (h : Tree B root m tab) (hd : d < 3) (hp : tab d (e / 512) = some p)
    (hnone : tab (d + 1) e = none) (hq : IsPage q) (hfresh : ∀ d' e', tab d' e' ≠ some q) :
    leafAt ((m.memset q 0 pageSize).store (entAddr p (e % 512)) 8 pte) (addPage tab (d + 1) e q) =
      leafAt m tab := by
  have hi : ∀ x, x % 512 < 512 := fun x => Nat.mod_lt _ (by norm_num)
  have hpq : q ≠ p := fun hpq => hfresh _ _ (hpq ▸ hp)
  funext v
  unfold leafAt
  by_cases hnew : 3 = d + 1 ∧ v / 512 = e
  · -- a new last-level table holds zeros
    obtain ⟨h3, rfl⟩ := hnew
    rw [h3, addPage_self, hnone]
    simp only []
    rw [ent_store_of_ne (h.page hp) hq (hi _) (hi _) (.inl hpq), ent_memset_self (hi _)]
  · rw [addPage_of_ne hnew]
    cases hp3 : tab 3 (v / 512) with
    | none => rfl
    | some p3 =>
      have hne : p3 ≠ p := by
        rintro rfl
        obtain ⟨h3, -⟩ := h.inj hp3 hp
        omega
      have hne' : p3 ≠ q := fun h3q => hfresh _ _ (h3q ▸ hp3)
      simp only []
      rw [ent_store_of_ne (h.page hp) (h.page hp3) (hi _) (hi _) (.inl hne),
        ent_memset_of_ne hq (h.page hp3) (hi _) hne']

/-- Writing a last-level entry keeps the tree. -/
lemma setLeaf (h : Tree B root m tab) (hp : tab 3 (v / 512) = some p) (pte : ℕ) :
    Tree B root (m.store (entAddr p (v % 512)) 8 pte) tab := by
  have hi : ∀ x, x % 512 < 512 := fun x => Nat.mod_lt _ (by norm_num)
  have hold : ∀ {d e q}, d < 3 → tab d (e / 512) = some q →
      ent (m.store (entAddr p (v % 512)) 8 pte) q (e % 512) = ent m q (e % 512) := by
    intro d e q hd hq
    apply ent_store_of_ne (h.page hp) (h.page hq) (hi _) (hi _)
    left
    rintro rfl
    obtain ⟨hdd, -⟩ := h.inj hp hq
    omega
  exact {
    root_eq := h.root_eq
    page := h.page
    inj := h.inj
    parent := h.parent
    child := fun hd hp2 hq2 => by rw [hold hd hp2]; exact h.child hd hp2 hq2
    empty := fun hd hp2 hq2 => by rw [hold hd hp2]; exact h.empty hd hp2 hq2
    block := h.block }

/-- Writing a last-level entry changes what the tree holds for that page only. -/
lemma leafAt_setLeaf (h : Tree B root m tab) (hp : tab 3 (v / 512) = some p) (hlt : pte < 2 ^ 64) :
    leafAt (m.store (entAddr p (v % 512)) 8 pte) tab = Function.update (leafAt m tab) v pte := by
  have hi : ∀ x, x % 512 < 512 := fun x => Nat.mod_lt _ (by norm_num)
  funext w
  by_cases hw : w = v
  · subst hw
    rw [Function.update_self, leafAt, hp]
    exact ent_store_self hlt
  · rw [Function.update_of_ne hw, leafAt, leafAt]
    cases hq : tab 3 (w / 512) with
    | none => rfl
    | some q =>
      apply ent_store_of_ne (h.page hp) (h.page hq) (hi _) (hi _)
      by_contra hcon
      rw [not_or, not_not, not_not] at hcon
      obtain ⟨rfl, hmod⟩ := hcon
      obtain ⟨-, hdiv⟩ := h.inj hq hp
      exact hw (by omega)

end Tree

end KingdoKernel.PageTable
