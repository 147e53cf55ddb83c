import KingdoKernel.PageTable.Boot

/-!
# The linear map

The tables `init_kernel_pt` leaves are two trees with block entries, one below `boot_ttbr1_l0` and one
below `boot_ttbr0_l0`; `LinearBlocks` is their common shape. As mapping never touches a block entry
(`Tree.grow` needs the entry to be empty), the linear map outlives every later mapping:
`linear_map_kept`.
-/

namespace KingdoKernel.PageTable
open BitField Boot

/-- Block entries below the first-level entry `b`: `f1` in its second-level table, `f2` in the third-level
table below the first entry of that. -/
structure LinearBlocks where
  b : ℕ
  f1 : ℕ → Option ℕ
  f2 : ℕ → Option ℕ
  b_lt : b < 512
  f1_zero : f1 0 = none
  valid1 : ∀ {j e}, f1 j = some e → isPteInvalid e = false ∧ isPteTable e = false
  valid2 : ∀ {j e}, f2 j = some e → isPteInvalid e = false ∧ isPteTable e = false

namespace LinearBlocks

variable (L : LinearBlocks)

/-- As block entries by depth and key. -/
def blocks : Blocks where
  entry d e :=
    if d = 1 ∧ e / 512 = L.b then L.f1 (e % 512)
    else if d = 2 ∧ e / 512 = L.b * 512 then L.f2 (e % 512)
    else none
  valid := by
    intro d e b h
    split at h
    · exact L.valid1 h
    · split at h
      · exact L.valid2 h
      · cases h
  top e := by
    rw [if_neg (by omega), if_neg (by omega)]

/-- The blocks of the two levels. -/
lemma blocks_entry (d e : ℕ) : L.blocks.entry d e =
    if d = 1 ∧ e / 512 = L.b then L.f1 (e % 512)
    else if d = 2 ∧ e / 512 = L.b * 512 then L.f2 (e % 512)
    else none := rfl

/-- The blocks of level 1. -/
lemma blocks_one {e : ℕ} (he : e / 512 = L.b) : L.blocks.entry 1 e = L.f1 (e % 512) := by
  rw [blocks_entry, if_pos ⟨rfl, he⟩]

/-- The blocks of level 2. -/
lemma blocks_two {e : ℕ} (he : e / 512 = L.b * 512) : L.blocks.entry 2 e = L.f2 (e % 512) := by
  rw [blocks_entry, if_neg (by omega), if_pos ⟨rfl, he⟩]

/-- No block of level 1 elsewhere. -/
lemma blocks_one_none {e : ℕ} (he : e / 512 ≠ L.b) : L.blocks.entry 1 e = none := by
  rw [blocks_entry, if_neg (by omega), if_neg (by omega)]

/-- No block of level 2 elsewhere. -/
lemma blocks_two_none {e : ℕ} (he : e / 512 ≠ L.b * 512) : L.blocks.entry 2 e = none := by
  rw [blocks_entry, if_neg (by omega), if_neg (by omega)]

/-- Addresses of another first-level entry meet no block. -/
lemma blocks_avoid {x : ℕ} (hx : key .L0 x ≠ L.b) (l : Level) : L.blocks.entry (depth l) (key l x) = none := by
  cases l with
  | L0 => exact L.blocks.top _
  | L1 => exact L.blocks_one_none (by rw [key_L1_div]; exact hx)
  | L2 =>
    apply L.blocks_two_none
    rw [key_L2_div]
    intro h
    rw [← key_L1_div x, h] at hx
    exact hx (Nat.mul_div_cancel _ (by norm_num))
  | L3 => rw [blocks_entry, if_neg (by simp [depth]), if_neg (by simp [depth])]

/-- The three table pages. -/
def tab (p0 p1 p2 : ℕ) : ℕ → ℕ → Option ℕ :=
  addPage (addPage (rootOnly p0) 1 L.b p1) 2 (L.b * 512) p2

variable {L} {p0 p1 p2 d k p : ℕ}

/-- The table of level 0. -/
lemma tab_root : L.tab p0 p1 p2 0 0 = some p0 := by
  rw [tab, addPage_of_ne (by omega), addPage_of_ne (by omega)]
  exact addPage_self

/-- The table of level 1. -/
lemma tab_one : L.tab p0 p1 p2 1 L.b = some p1 := by
  rw [tab, addPage_of_ne (by omega), addPage_self]

/-- The table of level 2. -/
lemma tab_two : L.tab p0 p1 p2 2 (L.b * 512) = some p2 := by
  rw [tab, addPage_self]

/-- There are no other tables. -/
lemma tab_eq_some (h : L.tab p0 p1 p2 d k = some p) :
    (d = 0 ∧ k = 0 ∧ p = p0) ∨ (d = 1 ∧ k = L.b ∧ p = p1) ∨ (d = 2 ∧ k = L.b * 512 ∧ p = p2) := by
  rcases addPage_eq_some h with ⟨rfl, rfl, rfl⟩ | ⟨-, h1⟩
  · exact .inr (.inr ⟨rfl, rfl, rfl⟩)
  · rcases addPage_eq_some h1 with ⟨rfl, rfl, rfl⟩ | ⟨-, h2⟩
    · exact .inr (.inl ⟨rfl, rfl, rfl⟩)
    · rcases addPage_eq_some h2 with ⟨rfl, rfl, rfl⟩ | ⟨-, h3⟩
      · exact .inl ⟨rfl, rfl, rfl⟩
      · cases h3

/-- There is no table of level 3, and so no page. -/
lemma leafAt_tab (m : Mem) (v : ℕ) : leafAt m (L.tab p0 p1 p2) v = 0 := by
  cases h : L.tab p0 p1 p2 3 (v / 512) with
  | none => rw [leafAt, h]
  | some p =>
    rcases tab_eq_some h with ⟨h3, -⟩ | ⟨h3, -⟩ | ⟨h3, -⟩ <;> cases h3

/-- Three tables with these entries are a tree. -/
lemma tree {m : Mem} (pte1 pte2 : ℕ) (hp : ∀ p ∈ [p0, p1, p2], IsPage p) (hnd : [p0, p1, p2].Nodup)
    (h0 : ∀ j < 512, ent m p0 j = if j = L.b then pte1 else 0) (hq1 : Points pte1 p1)
    (h1 : ∀ j < 512, ent m p1 j = if j = 0 then pte2 else (L.f1 j).getD 0) (hq2 : Points pte2 p2)
    (h2 : ∀ j < 512, ent m p2 j = (L.f2 j).getD 0) : Tree L.blocks p0 m (L.tab p0 p1 p2) := by
  have hb := L.b_lt
  have hi : ∀ x, x % 512 < 512 := fun x => Nat.mod_lt _ (by norm_num)
  obtain ⟨⟨h01, h02⟩, h12⟩ : (p0 ≠ p1 ∧ p0 ≠ p2) ∧ p1 ≠ p2 := by simpa using hnd
  constructor
  case root_eq => exact tab_root
  case page =>
    intro d k p h
    apply hp
    rcases tab_eq_some h with ⟨-, -, rfl⟩ | ⟨-, -, rfl⟩ | ⟨-, -, rfl⟩ <;> simp
  case inj =>
    intro d k d' k' p h h'
    rcases tab_eq_some h with ⟨rfl, rfl, e⟩ | ⟨rfl, rfl, e⟩ | ⟨rfl, rfl, e⟩ <;>
      rcases tab_eq_some h' with ⟨rfl, rfl, e'⟩ | ⟨rfl, rfl, e'⟩ | ⟨rfl, rfl, e'⟩ <;>
      first
        | exact ⟨rfl, rfl⟩
        | omega
  case parent =>
    intro d e q h
    rcases tab_eq_some h with ⟨hd, -⟩ | ⟨hd, rfl, -⟩ | ⟨hd, rfl, -⟩
    · cases hd
    · cases hd
      rw [Nat.div_eq_of_lt hb]
      exact ⟨p0, tab_root⟩
    · cases hd
      rw [Nat.mul_div_cancel _ (by norm_num)]
      exact ⟨p1, tab_one⟩
  case child =>
    intro d e p q hd hp' hq
    rcases tab_eq_some hq with ⟨hd', -⟩ | ⟨hd', rfl, rfl⟩ | ⟨hd', rfl, rfl⟩
    · cases hd'
    · cases hd'
      rw [Nat.div_eq_of_lt hb, tab_root] at hp'
      cases hp'
      rw [Nat.mod_eq_of_lt hb, h0 _ hb, if_pos rfl]
      exact hq1
    · cases hd'
      rw [Nat.mul_div_cancel _ (by norm_num), tab_one] at hp'
      cases hp'
      rw [Nat.mul_mod_left, h1 0 (by norm_num), if_pos rfl]
      exact hq2
  case empty =>
    intro d e p hd hp' hq
    rcases tab_eq_some hp' with ⟨rfl, he, rfl⟩ | ⟨rfl, he, rfl⟩ | ⟨rfl, he, rfl⟩
    · have hne : e ≠ L.b := by
        rintro rfl
        rw [tab_one] at hq
        cases hq
      rw [h0 _ (hi _), if_neg (by omega), L.blocks.top]
      rfl
    · have hne : e ≠ L.b * 512 := by
        rintro rfl
        rw [tab_two] at hq
        cases hq
      rw [h1 _ (hi _), if_neg (by omega), L.blocks_one he]
    · rw [h2 _ (hi _), L.blocks_two he]
  case block =>
    intro d e v hv
    rw [blocks_entry] at hv
    split at hv
    · next hde =>
      obtain ⟨rfl, he⟩ := hde
      refine ⟨by norm_num, ⟨p1, by rw [he, tab_one]⟩, ?_⟩
      cases ht : L.tab p0 p1 p2 2 e with
      | none => rfl
      | some p =>
        rcases tab_eq_some ht with ⟨h3, -⟩ | ⟨h3, -⟩ | ⟨-, rfl, -⟩
        · cases h3
        · cases h3
        · rw [Nat.mul_mod_left, L.f1_zero] at hv
          cases hv
    · split at hv
      · next hde =>
        obtain ⟨rfl, he⟩ := hde
        refine ⟨by norm_num, ⟨p2, by rw [he, tab_two]⟩, ?_⟩
        cases ht : L.tab p0 p1 p2 3 e with
        | none => rfl
        | some p => rcases tab_eq_some ht with ⟨h3, -⟩ | ⟨h3, -⟩ | ⟨h3, -⟩ <;> cases h3
      · cases hv

section Query

variable {m : Mem} {root x y a : ℕ} {tab : ℕ → ℕ → Option ℕ}

/-- The path to level 1 of an address in the range. -/
lemma key_L1_of (hx : x % 2 ^ 48 = L.b * 2 ^ 39 + y) : key .L1 x = L.b * 512 + y / 2 ^ 30 := by
  rw [key, indexShift_L1, hx]
  omega

/-- The path to level 2 of an address in the range. -/
lemma key_L2_of (hx : x % 2 ^ 48 = L.b * 2 ^ 39 + y) : key .L2 x = L.b * 512 * 512 + y / 2 ^ 21 := by
  rw [key, indexShift_L2, hx]
  omega

/-- An address in a 2 MB block. -/
lemma query_two (h : Tree L.blocks root m tab) (hx : x % 2 ^ 48 = L.b * 2 ^ 39 + y) (hy : y < 2 ^ 30)
    (hf : L.f2 (y / 2 ^ 21) = some (y / 2 ^ 21 * size2M ||| a)) (ha : BlockAttr a) :
    ∃ e, queryInPgtbl m root x = .ok (y, e) ∧ m.load e 8 = y / 2 ^ 21 * size2M ||| a := by
  have hk := key_L2_of hx
  have hb : L.blocks.entry 2 (key .L2 x) = some (y / 2 ^ 21 * size2M ||| a) := by
    rw [L.blocks_two (by omega), hk]
    have hmod : (L.b * 512 * 512 + y / 2 ^ 21) % 512 = y / 2 ^ 21 := by omega
    rw [hmod, hf]
  obtain ⟨e, hq, he⟩ := query_block_L2 h hb
  refine ⟨e, ?_, he⟩
  have haddr : getPaddrInPte (y / 2 ^ 21 * size2M ||| a) + x % 2 ^ 21 = y := by
    rw [getPaddrInPte_or (by unfold size2M; omega) (by unfold size2M; omega) ha.2.2.2]
    unfold size2M
    omega
  rw [hq, haddr]

/-- An address in a 1 GB block. -/
lemma query_one (h : Tree L.blocks root m tab) (hx : x % 2 ^ 48 = L.b * 2 ^ 39 + y) (hy : y < 2 ^ 39)
    (hf : L.f1 (y / 2 ^ 30) = some (y / 2 ^ 30 * size1G ||| a)) (ha : BlockAttr a) :
    ∃ e, queryInPgtbl m root x = .ok (y, e) ∧ m.load e 8 = y / 2 ^ 30 * size1G ||| a := by
  have hk := key_L1_of hx
  have hb : L.blocks.entry 1 (key .L1 x) = some (y / 2 ^ 30 * size1G ||| a) := by
    rw [L.blocks_one (by omega), hk]
    have hmod : (L.b * 512 + y / 2 ^ 30) % 512 = y / 2 ^ 30 := by omega
    rw [hmod, hf]
  obtain ⟨e, hq, he⟩ := query_block_L1 h hb
  refine ⟨e, ?_, he⟩
  have haddr : getPaddrInPte (y / 2 ^ 30 * size1G ||| a) + x % 2 ^ 30 = y := by
    rw [getPaddrInPte_or (by unfold size1G; omega) (by unfold size1G; omega) ha.2.2.2]
    unfold size1G
    omega
  rw [hq, haddr]

/-- An address outside the blocks, in a table that has nothing else. -/
lemma query_outside (h : Tree L.blocks p0 m (L.tab p0 p1 p2))
    (h1 : L.blocks.entry 1 (key .L1 x) = none) (h2 : L.blocks.entry 2 (key .L2 x) = none) :
    ∃ err < 0, queryInPgtbl m p0 x = .error err := by
  refine ⟨-enomem, by decide, query_none h h1 h2 ?_⟩
  rw [leafAt_tab]
  exact isPteInvalid_zero

end Query

end LinearBlocks

section Trees

variable (t : BootTables)

/-- The blocks below `boot_ttbr1_l0`. -/
def ttbr1Blocks : LinearBlocks where
  b := 510
  f1 j := if 1 ≤ j ∧ j < 4 then some (j * size1G ||| localAttr) else none
  f2 j := some (j * size2M ||| if j < 504 then normalAttr else deviceAttr)
  b_lt := by norm_num
  f1_zero := rfl
  valid1 := by
    intro j e h
    split at h
    · cases h
      exact localAttr_block.valid (by unfold size1G; omega)
    · cases h
  valid2 := by
    intro j e h
    cases h
    split
    · exact normalAttr_block.valid (by unfold size2M; omega)
    · exact deviceAttr_block.valid (by unfold size2M; omega)

/-- The blocks below `boot_ttbr0_l0`. -/
def ttbr0Blocks : LinearBlocks where
  b := 0
  f1 _ := none
  f2 j := some (j * size2M ||| if j < 1 then normalAttr else deviceAttr)
  b_lt := by norm_num
  f1_zero := rfl
  valid1 h := absurd h.symm (Option.some_ne_none _)
  valid2 := by
    intro j e h
    cases h
    split
    · exact normalAttr_block.valid (by unfold size2M; omega)
    · exact deviceAttr_block.valid (by unfold size2M; omega)

/-- The pages of the boot tables are zero. -/
def BootTables.Zero (t : BootTables) (m : Mem) : Prop :=
  ∀ p ∈ t.all, ∀ a, physToVirt p ≤ a → a < physToVirt p + 4096 → m a = 0

variable {t} {m : Mem}

/-- The entries of the cleared tables are zero. -/
lemma BootTables.Zero.ent (hz : t.Zero m) : ∀ p ∈ t.all, ∀ j < 512, ent m (physToVirt p) j = 0 := by
  intro p hp j hj
  apply Mem.load_eq_zero
  intro a h1 h2
  unfold entAddr at h1 h2
  exact hz p hp a (by omega) (by omega)

/-- Physical addresses have different kernel addresses. -/
lemma physToVirt_inj {p q : ℕ} (hp : p < 2 ^ 32) (hq : q < 2 ^ 32) (h : physToVirt p = physToVirt q) :
    p = q := by
  rw [physToVirt_of_lt hp, physToVirt_of_lt hq] at h
  omega

/-- The boot tables are six pages of the linear map. -/
lemma BootTables.isPage (t : BootTables) {p : ℕ} (hp : p ∈ t.all) : IsPage (physToVirt p) :=
  isPage_physToVirt (t.pages p hp)

/-- An entry for a boot table refers to it. -/
lemma BootTables.points (t : BootTables) {p : ℕ} (hp : p ∈ t.all) :
    Points (p ||| tableAttr) (physToVirt p) :=
  points_tableAttr (t.pages p hp).1 ((t.pages p hp).2.trans (by norm_num))

/-- Distinct tables are at distinct addresses. -/
lemma BootTables.nodup_map (t : BootTables) : (t.all.map physToVirt).Nodup :=
  t.distinct.map_on fun _ hp _ hq h => physToVirt_inj (t.pages _ hp).2 (t.pages _ hq).2 h

/-- The tables are pairwise distinct, one table against all. -/
lemma BootTables.ne (t : BootTables) : t.ttbr0L0 ≠ t.ttbr0L1 ∧ t.ttbr0L0 ≠ t.ttbr0L2 ∧
    t.ttbr0L0 ≠ t.ttbr1L0 ∧ t.ttbr0L0 ≠ t.ttbr1L1 ∧ t.ttbr0L0 ≠ t.ttbr1L2 ∧ t.ttbr0L1 ≠ t.ttbr0L2 ∧
    t.ttbr0L1 ≠ t.ttbr1L0 ∧ t.ttbr0L1 ≠ t.ttbr1L1 ∧ t.ttbr0L1 ≠ t.ttbr1L2 ∧ t.ttbr0L2 ≠ t.ttbr1L0 ∧
    t.ttbr0L2 ≠ t.ttbr1L1 ∧ t.ttbr0L2 ≠ t.ttbr1L2 ∧ t.ttbr1L0 ≠ t.ttbr1L1 ∧ t.ttbr1L0 ≠ t.ttbr1L2 ∧
    t.ttbr1L1 ≠ t.ttbr1L2 := by
  have hnd := t.distinct
  simp only [List.nodup_cons, List.mem_cons, List.not_mem_nil, or_false, not_or, not_false_eq_true,
    List.nodup_nil, and_true] at hnd
  tauto

section Entry

variable (t : BootTables) (j : ℕ)

/-- The 1 GB blocks of the kernel half. -/
lemma ttbr1Blocks_f1 : ttbr1Blocks.f1 j =
    if 1 ≤ j ∧ j < 4 then some (j * size1G ||| localAttr) else none := rfl

/-- The 2 MB blocks of the kernel half. -/
lemma ttbr1Blocks_f2 : ttbr1Blocks.f2 j =
    some (j * size2M ||| if j < 504 then normalAttr else deviceAttr) := rfl

/-- The 2 MB blocks of the lower half. -/
lemma ttbr0Blocks_f2 : ttbr0Blocks.f2 j =
    some (j * size2M ||| if j < 1 then normalAttr else deviceAttr) := rfl

/-- What `init_kernel_pt` writes to the root of the kernel half. -/
lemma entry_ttbr1L0 : t.entry t.ttbr1L0 j = if j = ttbr1Blocks.b then t.ttbr1L1 ||| tableAttr else 0 := by
  obtain ⟨-, -, h3, -, -, -, h7, -, -, h10, -, -, h13, h14, -⟩ := t.ne
  simp only [BootTables.entry, h3.symm, h7.symm, h10.symm, h13, h14, false_and, if_false, true_and]
  rfl

/-- What `init_kernel_pt` writes to level 1 of the kernel half. -/
lemma entry_ttbr1L1 : t.entry t.ttbr1L1 j =
    if j = 0 then t.ttbr1L2 ||| tableAttr else (ttbr1Blocks.f1 j).getD 0 := by
  obtain ⟨-, -, -, h4, -, -, -, h8, -, -, h11, -, h13, -, h15⟩ := t.ne
  rw [ttbr1Blocks_f1]
  simp only [BootTables.entry, h4.symm, h8.symm, h11.symm, h13.symm, h15, false_and, if_false, true_and]
  by_cases h0 : j = 0
  · rw [if_neg (by omega), if_pos h0, if_pos h0]
  · by_cases h1 : 1 ≤ j ∧ j < 4
    · rw [if_pos h1, if_neg h0, if_pos h1, Option.getD_some]
    · rw [if_neg h1, if_neg h0, if_neg h0, if_neg h1, Option.getD_none]

/-- What `init_kernel_pt` writes to level 2 of the kernel half. -/
lemma entry_ttbr1L2 {j : ℕ} (hj : j < 512) : t.entry t.ttbr1L2 j = (ttbr1Blocks.f2 j).getD 0 := by
  obtain ⟨-, -, -, -, h5, -, -, -, h9, -, -, h12, -, h14, h15⟩ := t.ne
  rw [ttbr1Blocks_f2, Option.getD_some]
  simp only [BootTables.entry, h5.symm, h9.symm, h12.symm, h14.symm, h15.symm, false_and, if_false,
    true_and]
  by_cases h504 : j < 504
  · rw [if_neg (by omega), if_pos (by omega), if_pos h504]
  · rw [if_pos (by omega), if_neg h504]

/-- What `init_kernel_pt` writes to the root of the lower half. -/
lemma entry_ttbr0L0 : t.entry t.ttbr0L0 j = if j = ttbr0Blocks.b then t.ttbr0L1 ||| tableAttr else 0 := by
  obtain ⟨h1, h2, h3, h4, h5, -⟩ := t.ne
  simp only [BootTables.entry, h1, h2, h3, h4, h5, false_and, if_false, true_and]
  rfl

/-- What `init_kernel_pt` writes to level 1 of the lower half. -/
lemma entry_ttbr0L1 : t.entry t.ttbr0L1 j =
    if j = 0 then t.ttbr0L2 ||| tableAttr else (ttbr0Blocks.f1 j).getD 0 := by
  obtain ⟨h1, -, -, -, -, h6, h7, h8, h9, -⟩ := t.ne
  simp only [BootTables.entry, h1.symm, h6, h7, h8, h9, false_and, if_false, true_and]
  rfl

/-- What `init_kernel_pt` writes to level 2 of the lower half. -/
lemma entry_ttbr0L2 {j : ℕ} (hj : j < 512) : t.entry t.ttbr0L2 j = (ttbr0Blocks.f2 j).getD 0 := by
  rw [ttbr0Blocks_f2, Option.getD_some]
  simp only [BootTables.entry, true_and]
  by_cases h1 : j < 1
  · rw [if_neg (by omega), if_pos (by omega), if_pos h1]
  · rw [if_pos (by omega), if_neg h1]

end Entry

/-- The tree below `boot_ttbr1_l0` after `init_kernel_pt`. -/
lemma initKernelPt_ttbr1 (hz : t.Zero m) :
    Tree ttbr1Blocks.blocks (physToVirt t.ttbr1L0) (initKernelPt t m)
      (ttbr1Blocks.tab (physToVirt t.ttbr1L0) (physToVirt t.ttbr1L1) (physToVirt t.ttbr1L2)) := by
  have hm0 : t.ttbr1L0 ∈ t.all := by simp [BootTables.all]
  have hm1 : t.ttbr1L1 ∈ t.all := by simp [BootTables.all]
  have hm2 : t.ttbr1L2 ∈ t.all := by simp [BootTables.all]
  have hsub : [physToVirt t.ttbr1L0, physToVirt t.ttbr1L1, physToVirt t.ttbr1L2].Sublist
      (t.all.map physToVirt) := List.drop_sublist 3 (t.all.map physToVirt)
  apply LinearBlocks.tree (t.ttbr1L1 ||| tableAttr) (t.ttbr1L2 ||| tableAttr)
  case hp => simpa using ⟨t.isPage hm0, t.isPage hm1, t.isPage hm2⟩
  case hnd => exact t.nodup_map.sublist hsub
  case hq1 => exact t.points hm1
  case hq2 => exact t.points hm2
  case h0 => exact fun j hj => (initKernelPt_ent t hz.ent hm0 hj).trans (entry_ttbr1L0 t j)
  case h1 => exact fun j hj => (initKernelPt_ent t hz.ent hm1 hj).trans (entry_ttbr1L1 t j)
  case h2 => exact fun j hj => (initKernelPt_ent t hz.ent hm2 hj).trans (entry_ttbr1L2 t hj)

/-- The tree below `boot_ttbr0_l0` after `init_kernel_pt`. -/
lemma initKernelPt_ttbr0 (hz : t.Zero m) :
    Tree ttbr0Blocks.blocks (physToVirt t.ttbr0L0) (initKernelPt t m)
      (ttbr0Blocks.tab (physToVirt t.ttbr0L0) (physToVirt t.ttbr0L1) (physToVirt t.ttbr0L2)) := by
  have hm0 : t.ttbr0L0 ∈ t.all := by simp [BootTables.all]
  have hm1 : t.ttbr0L1 ∈ t.all := by simp [BootTables.all]
  have hm2 : t.ttbr0L2 ∈ t.all := by simp [BootTables.all]
  have hsub : [physToVirt t.ttbr0L0, physToVirt t.ttbr0L1, physToVirt t.ttbr0L2].Sublist
      (t.all.map physToVirt) := List.take_sublist 3 (t.all.map physToVirt)
  apply LinearBlocks.tree (t.ttbr0L1 ||| tableAttr) (t.ttbr0L2 ||| tableAttr)
  case hp => simpa using ⟨t.isPage hm0, t.isPage hm1, t.isPage hm2⟩
  case hnd => exact t.nodup_map.sublist hsub
  case hq1 => exact t.points hm1
  case hq2 => exact t.points hm2
  case h0 => exact fun j hj => (initKernelPt_ent t hz.ent hm0 hj).trans (entry_ttbr0L0 t j)
  case h1 => exact fun j hj => (initKernelPt_ent t hz.ent hm1 hj).trans (entry_ttbr0L1 t j)
  case h2 => exact fun j hj => (initKernelPt_ent t hz.ent hm2 hj).trans (entry_ttbr0L2 t hj)

/-- The table pages below `boot_ttbr1_l0`. -/
def BootTables.ttbr1 (t : BootTables) : Set ℕ :=
  {physToVirt t.ttbr1L0, physToVirt t.ttbr1L1, physToVirt t.ttbr1L2}

/-- The state after `init_kernel_pt`. -/
lemma Mapped.boot (getPages : ℕ → ℕ) (hz : t.Zero m) :
    Mapped getPages t.ttbr1 ttbr1Blocks.blocks (physToVirt t.ttbr1L0) ⟨initKernelPt t m, 0, none⟩
      (ttbr1Blocks.tab (physToVirt t.ttbr1L0) (physToVirt t.ttbr1L1) (physToVirt t.ttbr1L2)) := by
  refine { toTree := initKernelPt_ttbr1 hz, known := fun {d k p} h => .inl ?_ }
  rcases LinearBlocks.tab_eq_some h with ⟨-, -, e⟩ | ⟨-, -, e⟩ | ⟨-, -, e⟩
  · exact .inl e
  · exact .inr (.inl e)
  · exact .inr (.inr e)

/-- The attribute index of a block entry, `attr_index` of `pte_t.l1_block` and `pte_t.l2_block`. -/
def blockAttrIndex (pte : ℕ) : ℕ := getBits pte 2 3

/-- The value `el1_mmu_activate` writes to `mair_el1`: `MMU_MAIR_ATTR0` to `MMU_MAIR_ATTR4`, which are
`DEVICE_nGnRnE`, `DEVICE_nGnRE`, `DEVICE_GRE`, `NORMAL_NC` and `NORMAL`. -/
def mairEl1 : ℕ :=
  0x00 <<< (8 * 0) ||| 0x04 <<< (8 * 1) ||| 0x0c <<< (8 * 2) ||| 0x44 <<< (8 * 3) ||| 0xff <<< (8 * 4)

/-- The memory attribute of an entry: the byte of `mair_el1` that its index selects. -/
def memoryAttr (pte : ℕ) : ℕ := getBits mairEl1 (8 * blockAttrIndex pte) 8

/-- An attribute is one of device memory if its upper half is 0. -/
def IsDevice (attr : ℕ) : Prop := getBits attr 4 4 = 0

instance (attr : ℕ) : Decidable (IsDevice attr) := inferInstanceAs (Decidable (_ = _))

/-- What an entry of the linear map says about the memory at `p`: `NORMAL_MEMORY`, the byte `NORMAL` of
`mair_el1`, below `PERIPHERAL_BASE`, and `DEVICE_MEMORY`, the byte `DEVICE_nGnRnE`, from there on. -/
structure LinearAttr (p pte : ℕ) : Prop where
  normal : p < peripheralBase →
    blockAttrIndex pte <<< 2 = Boot.normalMemory ∧ memoryAttr pte = 0xff ∧ ¬ IsDevice (memoryAttr pte)
  device : peripheralBase ≤ p →
    blockAttrIndex pte <<< 2 = Boot.deviceMemory ∧ memoryAttr pte = 0x00 ∧ IsDevice (memoryAttr pte)

/-- The index of an entry is that of its attributes. -/
lemma blockAttrIndex_or {v a : ℕ} (hv : v % 4096 = 0) : blockAttrIndex (v ||| a) = getBits a 2 3 :=
  getBits_or_low hv (by norm_num)

/-- Blocks of normal memory below `PERIPHERAL_BASE`. -/
lemma linearAttr_normal {p v : ℕ} (hp : p < peripheralBase) (hv : v % 4096 = 0) :
    LinearAttr p (v ||| normalAttr) := by
  have hi : blockAttrIndex (v ||| normalAttr) = 4 := blockAttrIndex_or hv
  refine ⟨fun _ => ?_, fun hge => absurd hp hge.not_gt⟩
  rw [memoryAttr, hi]
  decide

/-- Blocks of device memory from `PERIPHERAL_BASE` on. -/
lemma linearAttr_device {p v a : ℕ} (hp : peripheralBase ≤ p) (hv : v % 4096 = 0) (ha : getBits a 2 3 = 0) :
    LinearAttr p (v ||| a) := by
  have hi : blockAttrIndex (v ||| a) = 0 := (blockAttrIndex_or hv).trans ha
  refine ⟨fun hlt => absurd hlt hp.not_gt, fun _ => ?_⟩
  rw [memoryAttr, hi]
  decide

/-- The attribute is one of device memory exactly from `PERIPHERAL_BASE` on. -/
lemma LinearAttr.isDevice_iff {p pte : ℕ} (h : LinearAttr p pte) :
    IsDevice (memoryAttr pte) ↔ peripheralBase ≤ p :=
  ⟨fun hd => Nat.le_of_not_lt fun hp => (h.normal hp).2.2 hd, fun hp => (h.device hp).2.2⟩

/-- A tree with the blocks of `boot_ttbr1_l0` maps the first 4 GB of physical memory linearly. -/
lemma query_ttbr1 {root : ℕ} {tab : ℕ → ℕ → Option ℕ} (h : Tree ttbr1Blocks.blocks root m tab) {p : ℕ}
    (hp : p < 2 ^ 32) :
    ∃ e, queryInPgtbl m root (kbase + p) = .ok (p, e) ∧ LinearAttr p (m.load e 8) := by
  have hx : (kbase + p) % 2 ^ 48 = ttbr1Blocks.b * 2 ^ 39 + p := by
    have hb : ttbr1Blocks.b = 510 := rfl
    rw [hb]
    unfold kbase
    omega
  by_cases hlow : p < 2 ^ 30
  · have hf : ttbr1Blocks.f2 (p / 2 ^ 21) =
        some (p / 2 ^ 21 * size2M ||| if p / 2 ^ 21 < 504 then normalAttr else deviceAttr) := rfl
    by_cases hn : p / 2 ^ 21 < 504
    · rw [if_pos hn] at hf
      obtain ⟨e, hq, he⟩ := LinearBlocks.query_two h hx hlow hf normalAttr_block
      refine ⟨e, hq, ?_⟩
      rw [he]
      exact linearAttr_normal (by unfold peripheralBase; omega) (by unfold size2M; omega)
    · rw [if_neg hn] at hf
      obtain ⟨e, hq, he⟩ := LinearBlocks.query_two h hx hlow hf deviceAttr_block
      refine ⟨e, hq, ?_⟩
      rw [he]
      exact linearAttr_device (by unfold peripheralBase; omega) (by unfold size2M; omega) (by decide)
  · have hf : ttbr1Blocks.f1 (p / 2 ^ 30) = some (p / 2 ^ 30 * size1G ||| localAttr) :=
      if_pos (by omega)
    obtain ⟨e, hq, he⟩ := LinearBlocks.query_one h hx (hp.trans (by norm_num)) hf localAttr_block
    refine ⟨e, hq, ?_⟩
    rw [he]
    exact linearAttr_device (by unfold peripheralBase; omega) (by unfold size1G; omega) (by decide)

/-- Right after `init_kernel_pt` nothing else of the upper half is mapped. -/
lemma query_ttbr1_outside (hz : t.Zero m) {x : ℕ} (hlow : 2 ^ 64 - 2 ^ 48 ≤ x) (hhigh : x < 2 ^ 64)
    (hout : ¬ (kbase ≤ x ∧ x < kbase + 2 ^ 32)) :
    ∃ err < 0, queryInPgtbl (initKernelPt t m) (physToVirt t.ttbr1L0) x = .error err := by
  have hb : ttbr1Blocks.b = 510 := rfl
  apply LinearBlocks.query_outside (initKernelPt_ttbr1 hz)
  · by_cases hk : key .L1 x / 512 = ttbr1Blocks.b
    · rw [ttbr1Blocks.blocks_one hk]
      refine if_neg fun hin => hout ?_
      rw [hb] at hk
      rw [key, indexShift_L1] at hk hin
      unfold kbase
      omega
    · exact ttbr1Blocks.blocks_one_none hk
  · apply ttbr1Blocks.blocks_two_none
    intro hk
    apply hout
    rw [hb, key, indexShift_L2] at hk
    unfold kbase
    omega

/-- Right after `init_kernel_pt` the table `boot_ttbr0_l0` maps the first 1 GB to itself and no other
address of the lower half. -/
lemma query_ttbr0 (hz : t.Zero m) {x : ℕ} (hx : x < 2 ^ 48) :
    if x < sharedPeripheralEnd then
      ∃ e, queryInPgtbl (initKernelPt t m) (physToVirt t.ttbr0L0) x = .ok (x, e)
    else ∃ err < 0, queryInPgtbl (initKernelPt t m) (physToVirt t.ttbr0L0) x = .error err := by
  have hb : ttbr0Blocks.b = 0 := rfl
  have hend : sharedPeripheralEnd = 2 ^ 30 := rfl
  split
  · next hlt =>
    have hx' : x % 2 ^ 48 = ttbr0Blocks.b * 2 ^ 39 + x := by rw [hb]; omega
    have hattr : BlockAttr (if x / 2 ^ 21 < 1 then normalAttr else deviceAttr) := by
      split
      · exact normalAttr_block
      · exact deviceAttr_block
    obtain ⟨e, hq, -⟩ := LinearBlocks.query_two (initKernelPt_ttbr0 hz) hx' (hend ▸ hlt) rfl hattr
    exact ⟨e, hq⟩
  · next hge =>
    apply LinearBlocks.query_outside (initKernelPt_ttbr0 hz)
    · by_cases hk : key .L1 x / 512 = ttbr0Blocks.b
      · rw [ttbr0Blocks.blocks_one hk]
        rfl
      · exact ttbr0Blocks.blocks_one_none hk
    · apply ttbr0Blocks.blocks_two_none
      intro hk
      apply hge
      rw [hb, key, indexShift_L2] at hk
      rw [hend]
      omega

end Trees

/-- The linear map set up by `init_kernel_pt` is kept by every sequence of calls of
`map_range_in_pgtbl_kernel` that return: the first 4 GB of physical memory are mapped at `KBASE`, as
`virt_to_phys` has it, as device memory exactly from `PERIPHERAL_BASE` on and as normal memory below, by
`mair_el1`. Before the first call nothing else of the upper half is mapped, and `boot_ttbr0_l0` maps exactly
the first 1 GB of the lower half, to itself. -/
theorem linear_map_kept (t : BootTables) (m : Mem) (hz : t.Zero m) :
    (∀ getPages cs s, Fresh getPages t.ttbr1 → (∀ c ∈ cs, c.kind = .kernelPte) →
      runCalls getPages (physToVirt t.ttbr1L0) cs ⟨initKernelPt t m, 0, none⟩ = .ok s →
      ∀ p < 2 ^ 32, virtToPhys (kbase + p) = p ∧
        ∃ e, queryInPgtbl s.mem (physToVirt t.ttbr1L0) (kbase + p) = .ok (p, e) ∧
          LinearAttr p (s.mem.load e 8) ∧ (IsDevice (memoryAttr (s.mem.load e 8)) ↔ 0x3F000000 ≤ p)) ∧
    (∀ x, 2 ^ 64 - 2 ^ 48 ≤ x → x < 2 ^ 64 → ¬ (kbase ≤ x ∧ x < kbase + 2 ^ 32) →
      ∃ err < 0, queryInPgtbl (initKernelPt t m) (physToVirt t.ttbr1L0) x = .error err) ∧
    ∀ x < 2 ^ 48,
      if x < 0x40000000 then ∃ e, queryInPgtbl (initKernelPt t m) (physToVirt t.ttbr0L0) x = .ok (x, e)
      else ∃ err < 0, queryInPgtbl (initKernelPt t m) (physToVirt t.ttbr0L0) x = .error err := by
  refine ⟨?_, fun x h1 h2 h3 => query_ttbr1_outside hz h1 h2 h3, fun x hx => query_ttbr0 hz hx⟩
  intro getPages cs s hf _ hr p hp
  obtain ⟨-, tab, h, -⟩ := runCalls_spec hf (.boot getPages hz) hr
  obtain ⟨e, hq, ha⟩ := query_ttbr1 h.toTree hp
  refine ⟨?_, e, hq, ha, ha.isDevice_iff⟩
  rw [← physToVirt_of_lt hp, virtToPhys_physToVirt (by omega)]

/-- Boot tables at the start of an image that is loaded at `TEXT_OFFSET`. -/
def bootTablesAtText : BootTables where
  ttbr0L0 := 0x80000
  ttbr0L1 := 0x81000
  ttbr0L2 := 0x82000
  ttbr1L0 := 0x83000
  ttbr1L1 := 0x84000
  ttbr1L2 := 0x85000
  pages := by decide
  distinct := by decide

/-- Pages below the image are not boot tables. -/
lemma pagesFrom_fresh_boot : Fresh (pagesFrom 9) bootTablesAtText.ttbr1 := by
  refine pagesFrom_fresh (by norm_num) fun i hi hmem => ?_
  simp only [BootTables.ttbr1, bootTablesAtText, physToVirt, kbase, Set.mem_insert_iff,
    Set.mem_singleton_iff] at hmem
  omega

/-- The mapping of a stack of two pages. -/
def exampleCall : Call := ⟨.kernelPte, 0xFFFFFFFF00000000, 0x90000, 8192, vmrRead ||| vmrWrite, none⟩

/-- The call returns. -/
lemma bootCalls_ok {m : Mem} (hz : bootTablesAtText.Zero m) :
    ∃ s, runCalls (pagesFrom 9) (physToVirt 0x83000) [exampleCall] ⟨initKernelPt bootTablesAtText m, 0, none⟩ =
      .ok s := by
  have hn : ∀ n < 6, pagesFrom 9 n ≠ 0 := by decide
  refine runCalls_ok [exampleCall] pagesFrom_fresh_boot (.boot _ hz) (fun c hc => ?_) hn
  rw [List.mem_singleton] at hc
  subst hc
  refine ⟨by decide, by decide, fun j hj l => ttbr1Blocks.blocks_avoid ?_ l⟩
  have hb : ttbr1Blocks.b = 510 := rfl
  have hcnt : pageCnt exampleCall.len = 2 := rfl
  have hva : exampleCall.va = 0xFFFFFFFF00000000 := rfl
  rw [hcnt] at hj
  rw [hb, hva, key, indexShift_L0]
  unfold pageSize
  omega

/-- The statement for one placement of the tables, with an address of the peripherals and one of RAM. -/
theorem linear_map_kept_at_text : bootTablesAtText.Zero (fun _ => 0) ∧
    ∃ s, runCalls (pagesFrom 9) (physToVirt 0x83000) [exampleCall]
        ⟨initKernelPt bootTablesAtText fun _ => 0, 0, none⟩ = .ok s ∧
      (∃ e, queryInPgtbl s.mem (physToVirt 0x83000) 0xFFFFFF003F200000 = .ok (0x3F200000, e) ∧
        memoryAttr (s.mem.load e 8) = 0x00) ∧
      ∃ e, queryInPgtbl s.mem (physToVirt 0x83000) 0xFFFFFF0000200000 = .ok (0x200000, e) ∧
        memoryAttr (s.mem.load e 8) = 0xff := by
  have hz : bootTablesAtText.Zero fun _ => 0 := fun _ _ _ _ _ => rfl
  obtain ⟨s, hr⟩ := bootCalls_ok hz
  have hkept := (linear_map_kept bootTablesAtText _ hz).1 _ _ s pagesFrom_fresh_boot (by decide) hr
  obtain ⟨-, e, hq, ha, -⟩ := hkept 0x3F200000 (by norm_num)
  obtain ⟨-, e', hq', ha', -⟩ := hkept 0x200000 (by norm_num)
  exact ⟨hz, s, hr, ⟨e, hq, (ha.device (by decide)).2.1⟩, e', hq', (ha'.normal (by decide)).2.1⟩

end KingdoKernel.PageTable
