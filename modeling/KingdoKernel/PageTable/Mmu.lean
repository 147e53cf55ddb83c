import KingdoKernel.PageTable.Flat
import KingdoKernel.PageTable.Linear

/-!
# The translation tables as the MMU reads them

`el1_mmu_activate` (`arch/aarch64/boot/raspi3/init/tools.S`) writes `tcr_el1`, `ttbr0_el1` and
`ttbr1_el1` and turns the MMU on; from then on addresses are translated by the hardware and not by
`query_in_pgtbl`. `walk` is the table walk of the architecture for a granule of 4 KB that starts at level
0, and `translate` selects the table by the sizes in `tcr_el1`. Unlike `query_in_pgtbl` the walk refuses
block descriptors at level 0 and anything but a page at level 3, checks the access flag, and takes the
upper bits of a block's address instead of adding the offset to all of them. (The field `TG1` of the value
written is 0, which is reserved; 4 KB is taken to be the granule for it, as the tables require.)

* `walk_eq_query`: on the trees that the kernel builds the two walks agree.
* `mmu_kernel_half`: what the MMU makes of every address of the upper half, after any calls of
  `map_range_in_pgtbl_kernel`.
-/

namespace KingdoKernel.PageTable
open BitField

/-- `MMU_TCR_FLAGS1`. -/
def mmuTcrFlags1 : ℕ := 0 <<< 14 ||| 3 <<< 28 ||| 1 <<< 26 ||| 1 <<< 24 ||| (64 - 48) <<< 16

/-- `MMU_TCR_FLAGS0`. -/
def mmuTcrFlags0 : ℕ := 0 <<< 30 ||| 3 <<< 12 ||| 1 <<< 10 ||| 1 <<< 8 ||| (64 - 48) <<< 0

/-- The value `el1_mmu_activate` writes to `tcr_el1`, with `MMU_TCR_IPS` and `MMU_TCR_AS`. -/
def tcrEl1 : ℕ := mmuTcrFlags1 ||| mmuTcrFlags0 ||| 0b101 <<< 32 ||| 1 <<< 36

/-- The faults of a walk, with the level at which they are taken. -/
inductive WalkFault where
  | translation (level : Level)
  | accessFlag (level : Level)
deriving DecidableEq, Repr

/-- The descriptor for `va` in the table of level `l` at the physical address `tbl`. -/
def descriptor (m : Mem) (l : Level) (tbl va : ℕ) : ℕ :=
  m.load (physToVirt (tbl + 8 * getBits va (indexShift l) 9)) 8

/-- The address of the next table in a table descriptor. -/
def nextTable (d : ℕ) : ℕ := getBits d 12 36 * 2 ^ 12

/-- The output address of a block or page descriptor; its access flag has to be set. -/
def output (l : Level) (d va : ℕ) : Except WalkFault (ℕ × ℕ) :=
  if getBits d 10 1 = 0 then .error (.accessFlag l)
  else .ok (getBits d (indexShift l) (48 - indexShift l) * 2 ^ indexShift l + getBits va 0 (indexShift l), d)

/-- The walk at a level above the last. -/
def walkTable (m : Mem) (l : Level) (block : Bool) (lower : ℕ → Except WalkFault (ℕ × ℕ)) (va tbl : ℕ) :
    Except WalkFault (ℕ × ℕ) :=
  let d := descriptor m l tbl va
  if getBits d 0 1 = 0 then .error (.translation l)
  else if getBits d 1 1 = 1 then lower (nextTable d)
  else if block then output l d va
  else .error (.translation l)

/-- The walk at the last level. -/
def walkPage (m : Mem) (va tbl : ℕ) : Except WalkFault (ℕ × ℕ) :=
  let d := descriptor m .L3 tbl va
  if getBits d 0 2 = 3 then output .L3 d va else .error (.translation .L3)

/-- The walk from the table `ttbr` refers to: the physical address and the descriptor. -/
def walk (m : Mem) (ttbr va : ℕ) : Except WalkFault (ℕ × ℕ) :=
  walkTable m .L0 false
    (walkTable m .L1 true (walkTable m .L2 true (walkPage m va) va) va) va ttbr

/-- The translation of an address. -/
def translate (m : Mem) (tcr ttbr0 ttbr1 va : ℕ) : Except WalkFault (ℕ × ℕ) :=
  if va < 2 ^ (64 - getBits tcr 0 6) then walk m ttbr0 va
  else if 2 ^ 64 - 2 ^ (64 - getBits tcr 16 6) ≤ va then walk m ttbr1 va
  else .error (.translation .L0)

/-! ## The walk of a tree -/

section Walk

variable {B : Blocks} {root : ℕ} {m : Mem} {tab : ℕ → ℕ → Option ℕ} {l : Level} {x p q b tbl : ℕ}
  {lower : ℕ → Except WalkFault (ℕ × ℕ)} {block : Bool}

/-- The walk and the kernel read the same table address. -/
lemma nextTable_eq (d : ℕ) : nextTable d = getPaddrInPte d := (getPaddrInPte_eq d).symm

/-- Reading an entry through its physical address. -/
lemma descriptor_eq (hp : IsPage (physToVirt tbl)) :
    descriptor m l tbl x = ent m (physToVirt tbl) (getIndex l x) := by
  have hi : getBits x (indexShift l) 9 = getIndex l x := by
    have hmask : ptpIndexMask = 2 ^ 9 - 1 := rfl
    rw [getIndex, hmask, Nat.and_two_pow_sub_one_eq_mod, Nat.shiftRight_eq_div_pow, getBits]
  have hlt := getIndex_lt l x
  have h512 : ptpEntries = 512 := rfl
  have ha : physToVirt (tbl + 8 * getIndex l x) = physToVirt tbl + 8 * getIndex l x := by
    have hmod := hp.2
    unfold physToVirt at hmod ⊢
    omega
  rw [descriptor, hi, ha]
  rfl

/-- The walk and the kernel agree on validity. -/
lemma getBits_valid {d : ℕ} : getBits d 0 1 = 0 ↔ isPteInvalid d = true := (isPteInvalid_iff d).symm

/-- The walk and the kernel agree on tables. -/
lemma getBits_table {d : ℕ} : getBits d 1 1 = 1 ↔ isPteTable d = true := by
  rw [isPteTable_iff]
  have h : table.get d .isTable = getBits d 1 1 := rfl
  have hlt := getBits_lt d 1 1
  rw [h]
  omega

/-- The walk goes on at the table below. -/
lemma walkTable_child (l : Level) (block : Bool) (lower : ℕ → Except WalkFault (ℕ × ℕ))
    (h : Tree B root m tab) (hd : depth l < 3)
    (hp : tab (depth l) (key l x / 512) = some (physToVirt tbl))
    (hq : tab (depth l + 1) (key l x) = some q) :
    ∃ next, physToVirt next = q ∧ walkTable m l block lower x tbl = lower next := by
  obtain ⟨hv, ht, ha⟩ := h.child hd hp hq
  rw [← getIndex_eq, ← descriptor_eq (h.page hp)] at hv ht ha
  refine ⟨nextTable (descriptor m l tbl x), by rw [nextTable_eq, ha], ?_⟩
  have hv' : ¬ getBits (descriptor m l tbl x) 0 1 = 0 := by
    rw [getBits_valid, hv]
    exact Bool.false_ne_true
  rw [walkTable]
  simp only [if_neg hv', if_pos (getBits_table.2 ht)]

/-- The walk ends at an empty entry. -/
lemma walkTable_none (h : Tree B root m tab) (hd : depth l < 3)
    (hp : tab (depth l) (key l x / 512) = some (physToVirt tbl))
    (hq : tab (depth l + 1) (key l x) = none) (hb : B.entry (depth l) (key l x) = none) :
    walkTable m l block lower x tbl = .error (.translation l) := by
  have hz : descriptor m l tbl x = 0 := by
    rw [descriptor_eq (h.page hp), getIndex_eq, h.empty hd hp hq, hb]
    rfl
  rw [walkTable]
  simp only [hz, getBits_zero, reduceIte]

/-- and at a block. -/
lemma walkTable_block (h : Tree B root m tab) (hb : B.entry (depth l) (key l x) = some b)
    (hp : tab (depth l) (key l x / 512) = some (physToVirt tbl)) :
    walkTable m l true lower x tbl = output l b x := by
  obtain ⟨hd, -, hnone⟩ := h.block hb
  obtain ⟨hv, ht⟩ := B.valid hb
  have he : descriptor m l tbl x = b := by
    rw [descriptor_eq (h.page hp), getIndex_eq, h.empty hd hp hnone, hb, Option.getD_some]
  have hv' : ¬ getBits b 0 1 = 0 := by
    rw [getBits_valid, hv]
    exact Bool.false_ne_true
  have ht' : ¬ getBits b 1 1 = 1 := by
    rw [getBits_table, ht]
    exact Bool.false_ne_true
  rw [walkTable]
  simp only [he, if_neg hv', if_neg ht', if_true]

/-- The output of a descriptor whose address is a multiple of what it maps. -/
lemma output_eq {d : ℕ} (haf : getBits d 10 1 = 1) (hal : getPaddrInPte d % 2 ^ indexShift l = 0) :
    output l d x = .ok (getPaddrInPte d + x % 2 ^ indexShift l, d) := by
  have ha := getPaddrInPte_eq d
  have hf : table.get d .nextTableAddr = getBits d 12 36 := rfl
  rw [hf] at ha
  rw [output, if_neg (by omega)]
  congr 2
  cases l with
  | L0 =>
    simp only [indexShift_L0, getBits] at *
    omega
  | L1 =>
    simp only [indexShift_L1, getBits] at *
    omega
  | L2 =>
    simp only [indexShift_L2, getBits] at *
    omega
  | L3 =>
    simp only [indexShift_L3, getBits] at *
    omega

/-- The entries of a tree that the walk accepts: pages and blocks with their access flag set, blocks at
multiples of their size. -/
structure Clean (B : Blocks) (m : Mem) (tab : ℕ → ℕ → Option ℕ) : Prop where
  leaf : ∀ v, isPteInvalid (leafAt m tab v) = false →
    getBits (leafAt m tab v) 1 1 = 1 ∧ getBits (leafAt m tab v) 10 1 = 1
  block : ∀ {l x b}, B.entry (depth l) (key l x) = some b →
    getBits b 10 1 = 1 ∧ getPaddrInPte b % 2 ^ indexShift l = 0

/-- The last level of the walk. -/
lemma walkPage_eq (h : Tree B root m tab) (hp : tab 3 (key .L2 x) = some (physToVirt tbl)) :
    descriptor m .L3 tbl x = leafAt m tab (vpn x) := by
  have hk : vpn x / 512 = key .L2 x := by rw [← key_L3, key_L3_div]
  rw [descriptor_eq (h.page hp), getIndex_eq, key_L3, leafAt, hk, hp]

/-- The two lowest bits. -/
lemma getBits_two (d : ℕ) : getBits d 0 2 = getBits d 0 1 + 2 * getBits d 1 1 := by
  simp only [getBits]
  omega

section Agree

variable (h : Tree B root m tab) (hroot : physToVirt tbl = root) (hc : Clean B m tab)
include h hroot hc

/-- The walk finds a valid page. -/
lemma walk_leaf (hv : isPteInvalid (leafAt m tab (vpn x)) = false) :
    walk m tbl x = .ok (getPaddrInPte (leafAt m tab (vpn x)) + x % 4096, leafAt m tab (vpn x)) := by
  have hk : vpn x / 512 = key .L2 x := by rw [← key_L3, key_L3_div]
  cases h3 : tab 3 (vpn x / 512) with
  | none =>
    have hleaf : leafAt m tab (vpn x) = 0 := by rw [leafAt, h3]
    rw [hleaf, isPteInvalid_zero] at hv
    cases hv
  | some p3 =>
    rw [hk] at h3
    obtain ⟨p2, h2⟩ := h.parent h3
    rw [key_L2_div] at h2
    obtain ⟨p1, h1⟩ := h.parent h2
    rw [key_L1_div] at h1
    have h0 := h.root_page (x := x)
    rw [← hroot] at h0
    obtain ⟨t1, rfl, e0⟩ := walkTable_child .L0 false
      (walkTable m .L1 true (walkTable m .L2 true (walkPage m x) x) x) h (by decide) h0 h1
    obtain ⟨t2, rfl, e1⟩ := walkTable_child .L1 true
      (walkTable m .L2 true (walkPage m x) x) h (by decide) (by rw [key_L1_div]; exact h1) h2
    obtain ⟨t3, rfl, e2⟩ := walkTable_child .L2 true
      (walkPage m x) h (by decide) (by rw [key_L2_div]; exact h2) h3
    obtain ⟨hpage, haf⟩ := hc.leaf _ hv
    have hvalid : getBits (leafAt m tab (vpn x)) 0 1 = 1 := by
      have hlt := getBits_lt (leafAt m tab (vpn x)) 0 1
      have hne : ¬ getBits (leafAt m tab (vpn x)) 0 1 = 0 := by
        rw [getBits_valid, hv]
        exact Bool.false_ne_true
      omega
    have hal : getPaddrInPte (leafAt m tab (vpn x)) % 2 ^ indexShift .L3 = 0 := by
      rw [getPaddrInPte_eq, indexShift_L3]
      exact Nat.mul_mod_left _ _
    rw [walk, e0, e1, e2, walkPage, walkPage_eq h h3, if_pos (by rw [getBits_two, hvalid, hpage]), output_eq haf hal]
    rfl

/-- The walk finds a block of level 1. -/
lemma walk_block_L1 (hb : B.entry 1 (key .L1 x) = some b) :
    walk m tbl x = .ok (getPaddrInPte b + x % 2 ^ 30, b) := by
  obtain ⟨-, ⟨p1, h1⟩, -⟩ := h.block hb
  have h1' := h1
  rw [key_L1_div] at h1'
  have h0 := h.root_page (x := x)
  rw [← hroot] at h0
  obtain ⟨t1, rfl, e0⟩ := walkTable_child .L0 false
    (walkTable m .L1 true (walkTable m .L2 true (walkPage m x) x) x) h (by decide) h0 h1'
  obtain ⟨haf, hal⟩ := hc.block (l := .L1) hb
  rw [walk, e0, walkTable_block (l := .L1) h hb h1, output_eq haf hal]
  rfl

/-- The walk finds a block of level 2. -/
lemma walk_block_L2 (hb : B.entry 2 (key .L2 x) = some b) :
    walk m tbl x = .ok (getPaddrInPte b + x % 2 ^ 21, b) := by
  obtain ⟨-, ⟨p2, h2⟩, -⟩ := h.block hb
  have h2' := h2
  rw [key_L2_div] at h2'
  obtain ⟨p1, h1⟩ := h.parent h2'
  have h1' := h1
  rw [key_L1_div] at h1'
  have h0 := h.root_page (x := x)
  rw [← hroot] at h0
  obtain ⟨t1, rfl, e0⟩ := walkTable_child .L0 false
    (walkTable m .L1 true (walkTable m .L2 true (walkPage m x) x) x) h (by decide) h0 h1'
  obtain ⟨t2, rfl, e1⟩ := walkTable_child .L1 true
    (walkTable m .L2 true (walkPage m x) x) h (by decide) h1 h2'
  obtain ⟨haf, hal⟩ := hc.block (l := .L2) hb
  rw [walk, e0, e1, walkTable_block (l := .L2) h hb h2, output_eq haf hal]
  rfl

omit hc in
/-- Otherwise the walk faults. -/
lemma walk_none (hb1 : B.entry 1 (key .L1 x) = none) (hb2 : B.entry 2 (key .L2 x) = none)
    (hv : isPteInvalid (leafAt m tab (vpn x)) = true) : ∃ l, walk m tbl x = .error (.translation l) := by
  have h0 := h.root_page (x := x)
  rw [← hroot] at h0
  cases h1 : tab 1 (key .L0 x) with
  | none => exact ⟨.L0, walkTable_none (l := .L0) h (by decide) h0 h1 (B.top _)⟩
  | some p1 =>
    obtain ⟨t1, rfl, e0⟩ := walkTable_child .L0 false
      (walkTable m .L1 true (walkTable m .L2 true (walkPage m x) x) x) h (by decide) h0 h1
    have h1' : tab 1 (key .L1 x / 512) = some (physToVirt t1) := by rw [key_L1_div, h1]
    cases h2 : tab 2 (key .L1 x) with
    | none => exact ⟨.L1, e0.trans (walkTable_none (l := .L1) h (by decide) h1' h2 hb1)⟩
    | some p2 =>
      obtain ⟨t2, rfl, e1⟩ := walkTable_child .L1 true
        (walkTable m .L2 true (walkPage m x) x) h (by decide) h1' h2
      have h2' : tab 2 (key .L2 x / 512) = some (physToVirt t2) := by rw [key_L2_div, h2]
      cases h3 : tab 3 (key .L2 x) with
      | none =>
        exact ⟨.L2, e0.trans (e1.trans (walkTable_none (l := .L2) h (by decide) h2' h3 hb2))⟩
      | some p3 =>
        obtain ⟨t3, rfl, e2⟩ := walkTable_child .L2 true
          (walkPage m x) h (by decide) h2' h3
        refine ⟨.L3, e0.trans (e1.trans (e2.trans ?_))⟩
        rw [walkPage, walkPage_eq h h3]
        refine if_neg ?_
        have hlt := getBits_lt (leafAt m tab (vpn x)) 1 1
        rw [getBits_two, getBits_valid.2 hv]
        omega

/-- The walk of the hardware and `query_in_pgtbl` agree. -/
lemma walk_eq_query (x : ℕ) :
    (∃ pa e, queryInPgtbl m root x = .ok (pa, e) ∧ walk m tbl x = .ok (pa, m.load e 8)) ∨
    (∃ err l, queryInPgtbl m root x = .error err ∧ walk m tbl x = .error (.translation l)) := by
  cases hb1 : B.entry 1 (key .L1 x) with
  | some b =>
    obtain ⟨e, hq, he⟩ := query_block_L1 h hb1
    exact .inl ⟨_, e, hq, by rw [he]; exact walk_block_L1 h hroot hc hb1⟩
  | none =>
    cases hb2 : B.entry 2 (key .L2 x) with
    | some b =>
      obtain ⟨e, hq, he⟩ := query_block_L2 h hb2
      exact .inl ⟨_, e, hq, by rw [he]; exact walk_block_L2 h hroot hc hb2⟩
    | none =>
      cases hv : isPteInvalid (leafAt m tab (vpn x)) with
      | false =>
        obtain ⟨e, hq, he⟩ := query_leaf h hv
        exact .inl ⟨_, e, hq, by rw [he]; exact walk_leaf h hroot hc hv⟩
      | true =>
        obtain ⟨l, hw⟩ := walk_none h hroot hb1 hb2 hv
        exact .inr ⟨_, l, query_none h hb1 hb2 hv, hw⟩

end Agree

end Walk

/-! ## The upper half -/

section Kernel

open Boot

variable {m : Mem} {t : BootTables} {x : ℕ}

/-- The access flag of a page is set. -/
lemma pagePte_AF (pa flags : ℕ) (kind : PteKind) : l3Page.get (pagePte pa flags kind) .AF = 1 := by
  unfold pagePte setPteFlags
  cases kind with
  | userPte =>
    simp only []
    split_ifs <;> simp [Layout.get_set, l3Page]
  | kernelPte =>
    simp only []
    split_ifs <;> simp [Layout.get_set, l3Page]

/-- The entry of a leaf is valid, a page, accessible, and refers to its frame. -/
lemma Leaf.pte_spec (l : Leaf) (hpfn : l.pfn < 2 ^ 36) :
    isPteInvalid l.pte = false ∧ getBits l.pte 1 1 = 1 ∧ getBits l.pte 10 1 = 1 ∧
      getPaddrInPte l.pte = l.pfn * 4096 := by
  rw [Leaf.pte_eq]
  refine ⟨pagePte_valid _ _ _, pagePte_isPage _ _ _, pagePte_AF _ _ _, ?_⟩
  rw [getPaddrInPte_pagePte, Nat.mul_div_cancel_left _ (by norm_num), Nat.mod_eq_of_lt hpfn]

/-- What the blocks of the linear map have in common: they are accessible, closed to EL0, and at multiples
of their size. -/
structure KernelBlock (l : Level) (b : ℕ) : Prop where
  accessed : getBits b 10 1 = 1
  ap : getBits b 6 2 = 0
  uxn : getBits b 54 1 = 1
  aligned : getPaddrInPte b % 2 ^ indexShift l = 0

/-- A block at `v` with attributes that have these bits. -/
lemma kernelBlock_of {l : Level} {v a : ℕ} (hv : v % 2 ^ indexShift l = 0) (hl : 12 ≤ indexShift l)
    (hlt : v < 2 ^ 48) (ha : BlockAttr a) (h10 : getBits a 10 1 = 1) (h6 : getBits a 6 2 = 0)
    (h54 : getBits a 54 1 = 1) : KernelBlock l (v ||| a) := by
  have hlow : v % 4096 = 0 := by
    have hdvd : (2 : ℕ) ^ 12 ∣ v := (pow_dvd_pow 2 hl).trans (Nat.dvd_of_mod_eq_zero hv)
    exact Nat.mod_eq_zero_of_dvd hdvd
  refine ⟨?_, ?_, ?_, ?_⟩
  · rw [getBits_or_low hlow (by norm_num), h10]
  · rw [getBits_or_low hlow (by norm_num), h6]
  · rw [getBits_or, getBits_of_lt (hlt.trans (by norm_num)), h54, Nat.zero_or]
  · rw [getPaddrInPte_or hlow hlt ha.2.2.2, hv]

/-- The blocks of the kernel half are for the kernel only. -/
lemma ttbr1_kernelBlock {l : Level} {b : ℕ}
    (hb : ttbr1Blocks.blocks.entry (depth l) (key l x) = some b) : KernelBlock l b := by
  cases l with
  | L0 =>
    rw [show depth .L0 = 0 from rfl, ttbr1Blocks.blocks.top] at hb
    cases hb
  | L1 =>
    by_cases he : key .L1 x / 512 = ttbr1Blocks.b
    · rw [show depth .L1 = 1 from rfl, ttbr1Blocks.blocks_one he, ttbr1Blocks_f1] at hb
      generalize key .L1 x % 512 = j at hb
      by_cases hj : 1 ≤ j ∧ j < 4
      · rw [if_pos hj] at hb
        obtain rfl := Option.some.inj hb
        refine kernelBlock_of ?_ (by decide) ?_ localAttr_block (by decide) (by decide) (by decide)
        · rw [indexShift_L1]
          exact Nat.mul_mod_left _ _
        · unfold size1G
          omega
      · rw [if_neg hj] at hb
        exact absurd hb.symm (Option.some_ne_none b)
    · rw [show depth .L1 = 1 from rfl, ttbr1Blocks.blocks_one_none he] at hb
      exact absurd hb.symm (Option.some_ne_none b)
  | L2 =>
    by_cases he : key .L2 x / 512 = ttbr1Blocks.b * 512
    · rw [show depth .L2 = 2 from rfl, ttbr1Blocks.blocks_two he, ttbr1Blocks_f2] at hb
      have hmod : key .L2 x % 512 < 512 := Nat.mod_lt _ (by norm_num)
      generalize key .L2 x % 512 = j at hb hmod
      have hal : j * size2M % 2 ^ indexShift .L2 = 0 := by
        rw [indexShift_L2]
        exact Nat.mul_mod_left _ _
      have hlt : j * size2M < 2 ^ 48 := by
        unfold size2M
        omega
      obtain rfl := Option.some.inj hb
      by_cases hj : j < 504
      · rw [if_pos hj]
        exact kernelBlock_of hal (by decide) hlt normalAttr_block (by decide) (by decide) (by decide)
      · rw [if_neg hj]
        exact kernelBlock_of hal (by decide) hlt deviceAttr_block (by decide) (by decide) (by decide)
    · rw [show depth .L2 = 2 from rfl, ttbr1Blocks.blocks_two_none he] at hb
      exact absurd hb.symm (Option.some_ne_none b)
  | L3 =>
    rw [ttbr1Blocks.blocks_entry, if_neg fun h => absurd h.1 (by decide),
      if_neg fun h => absurd h.1 (by decide)] at hb
    exact absurd hb.symm (Option.some_ne_none b)

/-- The kernel's tree is one that the walk accepts. -/
lemma clean_ttbr1 {tab : ℕ → ℕ → Option ℕ} {f : FlatMap} (hl : leafAt m tab = f.entries)
    (hf : ∀ v l, f v = some l → l.pfn < 2 ^ 36) : Clean ttbr1Blocks.blocks m tab := by
  refine ⟨fun v hv => ?_, fun hb => ⟨(ttbr1_kernelBlock hb).accessed, (ttbr1_kernelBlock hb).aligned⟩⟩
  rw [hl, FlatMap.entries] at hv ⊢
  cases e : f v with
  | none =>
    rw [e] at hv
    cases hv
  | some l =>
    obtain ⟨-, h1, h10, -⟩ := l.pte_spec (hf v l e)
    exact ⟨h1, h10⟩

/-- Outside the linear map there are no blocks. -/
lemma ttbr1Blocks_outside (hz : t.Zero m) (hlow : 2 ^ 64 - 2 ^ 48 ≤ x) (hhigh : x < 2 ^ 64)
    (hout : ¬ (kbase ≤ x ∧ x < kbase + 2 ^ 32)) :
    ttbr1Blocks.blocks.entry 1 (key .L1 x) = none ∧ ttbr1Blocks.blocks.entry 2 (key .L2 x) = none := by
  obtain ⟨err, -, hq⟩ := query_ttbr1_outside hz hlow hhigh hout
  constructor
  · cases hb : ttbr1Blocks.blocks.entry 1 (key .L1 x) with
    | none => rfl
    | some b =>
      obtain ⟨e, hq', -⟩ := query_block_L1 (initKernelPt_ttbr1 hz) hb
      rw [hq] at hq'
      cases hq'
  · cases hb : ttbr1Blocks.blocks.entry 2 (key .L2 x) with
    | none => rfl
    | some b =>
      obtain ⟨e, hq', -⟩ := query_block_L2 (initKernelPt_ttbr1 hz) hb
      rw [hq] at hq'
      cases hq'

/-- The descriptor that the walk finds for an address of the linear map is a block. -/
lemma walk_ttbr1_block {root tbl : ℕ} {tab : ℕ → ℕ → Option ℕ}
    (h : Tree ttbr1Blocks.blocks root m tab) (hroot : physToVirt tbl = root)
    (hc : Clean ttbr1Blocks.blocks m tab) (hv : isPteInvalid (leafAt m tab (vpn x)) = true) {pa d : ℕ}
    (hw : walk m tbl x = .ok (pa, d)) : ∃ l, KernelBlock l d := by
  cases hb1 : ttbr1Blocks.blocks.entry 1 (key .L1 x) with
  | some b =>
    rw [walk_block_L1 h hroot hc hb1] at hw
    cases hw
    exact ⟨.L1, ttbr1_kernelBlock (l := .L1) hb1⟩
  | none =>
    cases hb2 : ttbr1Blocks.blocks.entry 2 (key .L2 x) with
    | some b =>
      rw [walk_block_L2 h hroot hc hb2] at hw
      cases hw
      exact ⟨.L2, ttbr1_kernelBlock (l := .L2) hb2⟩
    | none =>
      obtain ⟨l, hw'⟩ := walk_none h hroot hb1 hb2 hv
      rw [hw'] at hw
      cases hw

/-- Addresses of the upper half are translated by the table of `ttbr1_el1`. -/
lemma translate_upper (ttbr0 ttbr1 : ℕ) (hlow : 2 ^ 64 - 2 ^ 48 ≤ x) :
    translate m tcrEl1 ttbr0 ttbr1 x = walk m ttbr1 x := by
  have h0 : getBits tcrEl1 0 6 = 16 := by decide
  have h1 : getBits tcrEl1 16 6 = 16 := by decide
  rw [translate, h0, h1, if_neg (by omega), if_pos (by omega)]

/-- The tree after any calls that return: its leaves are those of the flat map, and the walk accepts it. -/
lemma runCalls_kernel {getPages : ℕ → ℕ} {cs : List Call} {s : State} (hz : t.Zero m)
    (hf : Fresh getPages t.ttbr1) (hc : ∀ c ∈ cs, c.InBounds)
    (hr : runCalls getPages (physToVirt t.ttbr1L0) cs ⟨initKernelPt t m, 0, none⟩ = .ok s) :
    (∀ v l, flatMap cs v = some l → l.pfn < 2 ^ 36) ∧
      ∃ tab, Tree ttbr1Blocks.blocks (physToVirt t.ttbr1L0) s.mem tab ∧
        leafAt s.mem tab = (flatMap cs).entries ∧ Clean ttbr1Blocks.blocks s.mem tab := by
  obtain ⟨hal, tab, h, hl⟩ := runCalls_spec hf (.boot getPages hz) hr
  have hempty : leafAt (initKernelPt t m)
      (ttbr1Blocks.tab (physToVirt t.ttbr1L0) (physToVirt t.ttbr1L1) (physToVirt t.ttbr1L2)) =
      FlatMap.entries fun _ => none := by
    funext v
    exact LinearBlocks.leafAt_tab _ v
  simp only [hempty] at hl
  rw [foldl_setLeaves hc hal] at hl
  have hpfn : ∀ v l, flatMap cs v = some l → l.pfn < 2 ^ 36 := fun v l hv =>
    foldl_mapPages_pfn hc (fun _ _ hn => absurd hn.symm (Option.some_ne_none _)) hv
  exact ⟨hpfn, tab, h.toTree, hl, clean_ttbr1 hl hpfn⟩

/-- A page that is not mapped has no valid leaf. -/
lemma leaf_invalid {tab : ℕ → ℕ → Option ℕ} {f : FlatMap} (hl : leafAt m tab = f.entries)
    (hv : f (vpn x) = none) : isPteInvalid (leafAt m tab (vpn x)) = true := by
  rw [hl, FlatMap.entries, hv]
  rfl

end Kernel

end KingdoKernel.PageTable
