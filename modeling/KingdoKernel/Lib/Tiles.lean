import Mathlib

/-!
# Dyadic blocks and tilings

The arithmetic of power-of-two blocks that a buddy scheme rests on. A `Block` is a run of `2 ^ order`
consecutive numbers; it is `Aligned` when its absolute position, an offset `base` away from its
relative `start`, is a multiple of its length. `Aligned.mem_iff` turns membership into an equation
between quotients, from which nesting (`Aligned.subset`) follows: two aligned blocks that meet are
nested.

A `Tiling` is a set of aligned blocks that meet pairwise only in themselves and whose union is a
given set of numbers. `Tiling.split` and `Tiling.merge` are the two edits of a buddy scheme,
`Tiling.exists_buddy_head` says that the buddy position of a tile is always the head of a tile, and
`Tiling.mem_iff_maximal` says that a tiling without two tiles of one parent (`NoBuddies`) consists of
the maximal aligned blocks of the set it tiles, so it is determined by that set.
-/

namespace KingdoKernel.Tiles

/-- A run of `2 ^ order` numbers from `start` on. -/
structure Block where
  start : ℕ
  order : ℕ
deriving DecidableEq, Repr

namespace Block

/-- The numbers a block consists of. -/
def pages (b : Block) : Set ℕ := Set.Ico b.start (b.start + 2 ^ b.order)

/-- The block lies at a multiple of its length, `base` being the position of number `0`. -/
def Aligned (base : ℕ) (b : Block) : Prop := 2 ^ b.order ∣ base + b.start

/-- The index of the block of order `k` around `n`. -/
def slot (base k n : ℕ) : ℕ := (base + n) / 2 ^ k

/-- The pages of a block. -/
lemma mem_pages {b : Block} {n : ℕ} : n ∈ b.pages ↔ b.start ≤ n ∧ n < b.start + 2 ^ b.order :=
  Iff.rfl

/-- The first page of a block. -/
lemma start_mem (b : Block) : b.start ∈ b.pages :=
  ⟨le_rfl, Nat.lt_add_of_pos_right (by positivity)⟩

/-- Blocks without a common number lie apart. -/
lemma apart_of_disjoint {b c : Block} (h : ∀ n ∈ b.pages, n ∉ c.pages) :
    b.start + 2 ^ b.order ≤ c.start ∨ c.start + 2 ^ c.order ≤ b.start := by
  have hb := h b.start b.start_mem
  have hc : c.start ∉ b.pages := fun hm => h c.start hm c.start_mem
  simp only [mem_pages] at hb hc
  omega

/-- Numbers in one slot are in one slot of every higher order. -/
lemma slot_mono {base k l m n : ℕ} (hkl : k ≤ l) (h : slot base k m = slot base k n) :
    slot base l m = slot base l n := by
  obtain ⟨d, rfl⟩ := Nat.exists_eq_add_of_le hkl
  simp only [slot, pow_add, ← Nat.div_div_eq_div_mul] at *
  rw [h]

/-- Membership in an aligned block is equality of slots. -/
lemma Aligned.mem_iff {base : ℕ} {b : Block} (hb : b.Aligned base) {n : ℕ} :
    n ∈ b.pages ↔ slot base b.order n = slot base b.order b.start := by
  obtain ⟨q, hq⟩ := hb
  have hpos : 0 < 2 ^ b.order := by positivity
  rw [mem_pages, slot, slot, hq, Nat.mul_div_cancel_left _ hpos, Nat.div_eq_iff hpos]
  rw [Nat.mul_comm q]
  omega

/-- Two aligned blocks that meet are nested. -/
lemma Aligned.subset {base : ℕ} {b c : Block} (hb : b.Aligned base) (hc : c.Aligned base)
    (hle : b.order ≤ c.order) {n : ℕ} (hnb : n ∈ b.pages) (hnc : n ∈ c.pages) :
    b.pages ⊆ c.pages := by
  intro m hm
  rw [hb.mem_iff] at hm hnb
  rw [hc.mem_iff] at hnc ⊢
  exact (slot_mono hle (hm.trans hnb.symm)).trans hnc

/-- An aligned block of order `k` around `n` starts at the only multiple of `2 ^ k` in its slot. -/
lemma Aligned.start_eq {base : ℕ} {b : Block} (hb : b.Aligned base) {n : ℕ}
    (hn : 2 ^ b.order ∣ base + n) (hmem : n ∈ b.pages) : b.start = n := by
  rw [hb.mem_iff] at hmem
  obtain ⟨q, hq⟩ := hb
  obtain ⟨r, hr⟩ := hn
  have hpos : 0 < 2 ^ b.order := by positivity
  rw [slot, slot, hq, hr, Nat.mul_div_cancel_left _ hpos, Nat.mul_div_cancel_left _ hpos] at hmem
  subst hmem
  omega

/-- Alignment is inherited by the orders below. -/
lemma Aligned.of_le {base a k l : ℕ} (h : Aligned base ⟨a, l⟩) (hkl : k ≤ l) :
    Aligned base ⟨a, k⟩ :=
  (pow_dvd_pow 2 hkl).trans h

/-- The upper half of an aligned block is aligned. -/
lemma Aligned.upper {base a k : ℕ} (h : Aligned base ⟨a, k + 1⟩) :
    Aligned base ⟨a + 2 ^ k, k⟩ := by
  have h1 : 2 ^ k ∣ base + a := (h.of_le (Nat.le_succ k))
  show 2 ^ k ∣ base + (a + 2 ^ k)
  rw [← Nat.add_assoc]
  exact Dvd.dvd.add h1 (dvd_refl _)

/-- A block is the union of its halves. -/
lemma mem_pages_succ {a k n : ℕ} :
    n ∈ (⟨a, k + 1⟩ : Block).pages ↔
      n ∈ (⟨a, k⟩ : Block).pages ∨ n ∈ (⟨a + 2 ^ k, k⟩ : Block).pages := by
  simp only [mem_pages, pow_succ]
  omega

/-- The halves of a block do not meet. -/
lemma halves_disjoint {a k n : ℕ} (h1 : n ∈ (⟨a, k⟩ : Block).pages)
    (h2 : n ∈ (⟨a + 2 ^ k, k⟩ : Block).pages) : False := by
  simp only [mem_pages] at h1 h2
  omega

/-- Two aligned blocks of one order that share a number are equal. -/
lemma Aligned.eq_of_order_eq {base : ℕ} {b c : Block} (hb : b.Aligned base) (hc : c.Aligned base)
    (ho : b.order = c.order) {n : ℕ} (hnb : n ∈ b.pages) (hnc : n ∈ c.pages) : b = c := by
  have hsub := hb.subset hc ho.le hnb hnc
  have hst : c.start = b.start := hc.start_eq (ho ▸ hb) (hsub b.start_mem)
  cases b
  cases c
  simp_all

/-- Aligned blocks with the same pages are equal. -/
lemma Aligned.eq_of_subset {base : ℕ} {b c : Block} (hb : b.Aligned base) (hc : c.Aligned base)
    (hbc : b.pages ⊆ c.pages) (hle : c.order ≤ b.order) : b = c := by
  have hcb : c.pages ⊆ b.pages := hc.subset hb hle (hbc b.start_mem) b.start_mem
  have h1 := hbc b.start_mem
  have h2 := hcb c.start_mem
  have h3 : c.start + (2 ^ c.order - 1) ∈ b.pages :=
    hcb ⟨by omega, by have : 0 < 2 ^ c.order := by positivity
                      omega⟩
  have h4 : b.start + (2 ^ b.order - 1) ∈ c.pages :=
    hbc ⟨by omega, by have : 0 < 2 ^ b.order := by positivity
                      omega⟩
  rw [mem_pages] at h1 h2 h3 h4
  have hpb : 0 < 2 ^ b.order := by positivity
  have hpc : 0 < 2 ^ c.order := by positivity
  have hpow : 2 ^ b.order = 2 ^ c.order := by omega
  have ho : b.order = c.order := Nat.pow_right_injective le_rfl hpow
  exact hb.eq_of_order_eq hc ho b.start_mem (hbc b.start_mem)

end Block

open Block

/-- The blocks of `T` are aligned, do not overlap, and cover exactly `S`. -/
structure Tiling (base : ℕ) (T : Set Block) (S : Set ℕ) : Prop where
  aligned : ∀ b ∈ T, b.Aligned base
  cover : ∀ n, n ∈ S ↔ ∃ b ∈ T, n ∈ b.pages
  disjoint : ∀ b ∈ T, ∀ c ∈ T, ∀ n, n ∈ b.pages → n ∈ c.pages → b = c

/-- No two tiles of an order below `top` are the halves of one aligned block. -/
def NoBuddies (base top : ℕ) (T : Set Block) : Prop :=
  ∀ b ∈ T, ∀ c ∈ T, b.order = c.order → b.order < top →
    slot base (b.order + 1) b.start = slot base (b.order + 1) c.start → b = c

namespace Tiling

variable {base : ℕ} {T : Set Block} {S : Set ℕ}

/-- A tile lies in the tiled set. -/
lemma subset (ht : Tiling base T S) {b : Block} (hb : b ∈ T) : b.pages ⊆ S :=
  fun n hn => (ht.cover n).2 ⟨b, hb, hn⟩

/-- Replacing a tile by its two halves. -/
lemma split {a k : ℕ} (ht : Tiling base (insert ⟨a, k + 1⟩ T) S) (hT : (⟨a, k + 1⟩ : Block) ∉ T) :
    Tiling base (insert ⟨a, k⟩ (insert ⟨a + 2 ^ k, k⟩ T)) S := by
  have hal := ht.aligned _ (Set.mem_insert _ _)
  have hne : ∀ c ∈ T, ∀ n, n ∈ (⟨a, k + 1⟩ : Block).pages → n ∉ c.pages := by
    intro c hc n hn hnc
    have e := ht.disjoint _ (Set.mem_insert _ _) c (Set.mem_insert_of_mem _ hc) n hn hnc
    exact hT (e ▸ hc)
  refine ⟨?_, ?_, ?_⟩
  · rintro b (rfl | rfl | hb)
    · exact hal.of_le (Nat.le_succ k)
    · exact hal.upper
    · exact ht.aligned b (Set.mem_insert_of_mem _ hb)
  · intro n
    rw [ht.cover n]
    constructor
    · rintro ⟨b, rfl | hb, hn⟩
      · rcases mem_pages_succ.1 hn with h | h
        · exact ⟨_, Set.mem_insert _ _, h⟩
        · exact ⟨_, Set.mem_insert_of_mem _ (Set.mem_insert _ _), h⟩
      · exact ⟨b, Set.mem_insert_of_mem _ (Set.mem_insert_of_mem _ hb), hn⟩
    · rintro ⟨b, rfl | rfl | hb, hn⟩
      · exact ⟨_, Set.mem_insert _ _, mem_pages_succ.2 (.inl hn)⟩
      · exact ⟨_, Set.mem_insert _ _, mem_pages_succ.2 (.inr hn)⟩
      · exact ⟨b, Set.mem_insert_of_mem _ hb, hn⟩
  · rintro b (rfl | rfl | hb) c (rfl | rfl | hc) n hnb hnc
    · rfl
    · exact (halves_disjoint hnb hnc).elim
    · exact (hne c hc n (mem_pages_succ.2 (.inl hnb)) hnc).elim
    · exact (halves_disjoint hnc hnb).elim
    · rfl
    · exact (hne c hc n (mem_pages_succ.2 (.inr hnb)) hnc).elim
    · exact (hne b hb n (mem_pages_succ.2 (.inl hnc)) hnb).elim
    · exact (hne b hb n (mem_pages_succ.2 (.inr hnc)) hnb).elim
    · exact ht.disjoint b (Set.mem_insert_of_mem _ hb) c (Set.mem_insert_of_mem _ hc) n hnb hnc

/-- Replacing two halves by the aligned block they make up. -/
lemma merge {a k : ℕ} (ht : Tiling base (insert ⟨a, k⟩ (insert ⟨a + 2 ^ k, k⟩ T)) S)
    (hal : Aligned base ⟨a, k + 1⟩) (h1 : (⟨a, k⟩ : Block) ∉ T)
    (h2 : (⟨a + 2 ^ k, k⟩ : Block) ∉ T) : Tiling base (insert ⟨a, k + 1⟩ T) S := by
  have hup : (⟨a + 2 ^ k, k⟩ : Block) ∈ insert ⟨a, k⟩ (insert ⟨a + 2 ^ k, k⟩ T) :=
    Set.mem_insert_of_mem _ (Set.mem_insert _ _)
  have hin : ∀ c ∈ T, c ∈ insert (⟨a, k⟩ : Block) (insert ⟨a + 2 ^ k, k⟩ T) :=
    fun c hc => Set.mem_insert_of_mem _ (Set.mem_insert_of_mem _ hc)
  have hne : ∀ c ∈ T, ∀ n, n ∈ (⟨a, k + 1⟩ : Block).pages → n ∉ c.pages := by
    intro c hc n hn hnc
    rcases mem_pages_succ.1 hn with h | h
    · exact h1 (ht.disjoint _ (Set.mem_insert _ _) c (hin c hc) n h hnc ▸ hc)
    · exact h2 (ht.disjoint _ hup c (hin c hc) n h hnc ▸ hc)
  refine ⟨?_, ?_, ?_⟩
  · rintro b (rfl | hb)
    · exact hal
    · exact ht.aligned b (hin b hb)
  · intro n
    rw [ht.cover n]
    constructor
    · rintro ⟨b, rfl | rfl | hb, hn⟩
      · exact ⟨_, Set.mem_insert _ _, mem_pages_succ.2 (.inl hn)⟩
      · exact ⟨_, Set.mem_insert _ _, mem_pages_succ.2 (.inr hn)⟩
      · exact ⟨b, Set.mem_insert_of_mem _ hb, hn⟩
    · rintro ⟨b, rfl | hb, hn⟩
      · rcases mem_pages_succ.1 hn with h | h
        · exact ⟨_, Set.mem_insert _ _, h⟩
        · exact ⟨_, hup, h⟩
      · exact ⟨b, hin b hb, hn⟩
  · rintro b (rfl | hb) c (rfl | hc) n hnb hnc
    · rfl
    · exact (hne c hc n hnb hnc).elim
    · exact (hne b hb n hnc hnb).elim
    · exact ht.disjoint b (hin b hb) c (hin c hc) n hnb hnc

/-- The buddy position of a tile is the head of a tile of at most the same order. -/
lemma exists_buddy_head (ht : Tiling base T S) {b : Block} (hb : b ∈ T) {n : ℕ} (hn : n ∈ S)
    (hal : 2 ^ b.order ∣ base + n) (hout : n ∉ b.pages)
    (hpar : slot base (b.order + 1) n = slot base (b.order + 1) b.start) :
    ∃ c ∈ T, c.start = n ∧ c.order ≤ b.order := by
  obtain ⟨c, hc, hnc⟩ := (ht.cover n).1 hn
  have hle : c.order ≤ b.order := by
    by_contra hlt
    -- a larger tile around `n` would contain the whole parent, hence `b`
    have hbc : b.start ∈ c.pages := by
      rw [(ht.aligned c hc).mem_iff] at hnc ⊢
      exact (slot_mono (by omega) hpar.symm).trans hnc
    exact hout (ht.disjoint b hb c hc _ b.start_mem hbc ▸ hnc)
  exact ⟨c, hc, (ht.aligned c hc).start_eq ((pow_dvd_pow 2 hle).trans hal) hnc, hle⟩

/-- Without buddies, an aligned block inside the tiled set lies inside one tile. -/
lemma exists_super {top : ℕ} (ht : Tiling base T S) (hnb : NoBuddies base top T) {a k : ℕ}
    (hal : Aligned base ⟨a, k⟩) (hk : k ≤ top) (hS : (⟨a, k⟩ : Block).pages ⊆ S) :
    ∃ b ∈ T, k ≤ b.order ∧ (⟨a, k⟩ : Block).pages ⊆ b.pages := by
  induction k generalizing a with
  | zero =>
    obtain ⟨b, hb, hn⟩ := (ht.cover a).1 (hS (start_mem _))
    exact ⟨b, hb, Nat.zero_le _, hal.subset (ht.aligned b hb) (Nat.zero_le _) (start_mem _) hn⟩
  | succ k ih =>
    obtain ⟨b, hb, hkb, hbs⟩ := ih (hal.of_le (Nat.le_succ k)) (by omega)
      (fun n hn => hS (mem_pages_succ.2 (.inl hn)))
    obtain ⟨c, hc, hkc, hcs⟩ := ih hal.upper (by omega)
      (fun n hn => hS (mem_pages_succ.2 (.inr hn)))
    have hlow : a ∈ (⟨a, k + 1⟩ : Block).pages := start_mem _
    have hupp : a + 2 ^ k ∈ (⟨a, k + 1⟩ : Block).pages :=
      mem_pages_succ.2 (.inr (start_mem ⟨a + 2 ^ k, k⟩))
    rcases Nat.lt_or_ge k b.order with hlt | hge
    · exact ⟨b, hb, hlt, hal.subset (ht.aligned b hb) hlt hlow (hbs (start_mem ⟨a, k⟩))⟩
    rcases Nat.lt_or_ge k c.order with hlt | hge'
    · exact ⟨c, hc, hlt, hal.subset (ht.aligned c hc) hlt hupp (hcs (start_mem ⟨a + 2 ^ k, k⟩))⟩
    -- both tiles have order `k`: they are the two halves, which `NoBuddies` excludes
    have eb := (hal.of_le (Nat.le_succ k)).eq_of_subset (ht.aligned b hb) hbs hge
    have ec := hal.upper.eq_of_subset (ht.aligned c hc) hcs hge'
    rw [← eb] at hb
    rw [← ec] at hc
    have e := hnb _ hb _ hc rfl (by omega : k < top)
      ((hal.mem_iff.1 hlow).trans (hal.mem_iff.1 hupp).symm)
    have hpos : 0 < 2 ^ k := by positivity
    injection e with e1 _
    omega

/-- Without buddies, the tiles are exactly the maximal aligned blocks of the tiled set. -/
lemma mem_iff_maximal {top : ℕ} (ht : Tiling base T S) (hnb : NoBuddies base top T)
    (htop : ∀ b ∈ T, b.order ≤ top) {b : Block} :
    b ∈ T ↔ b.Aligned base ∧ b.order ≤ top ∧ b.pages ⊆ S ∧
      ∀ c : Block, c.Aligned base → c.order ≤ top → c.pages ⊆ S → b.pages ⊆ c.pages → c = b := by
  constructor
  · intro hb
    refine ⟨ht.aligned b hb, htop b hb, ht.subset hb, ?_⟩
    intro c hc hctop hcS hbc
    obtain ⟨d, hd, hcd, hsub⟩ := ht.exists_super hnb (a := c.start) (k := c.order) hc hctop hcS
    have e := ht.disjoint b hb d hd _ b.start_mem (hsub (hbc b.start_mem))
    subst e
    exact ((ht.aligned b hb).eq_of_subset hc hbc hcd).symm
  · rintro ⟨hal, hbtop, hbS, hmax⟩
    obtain ⟨d, hd, hbd, hsub⟩ := ht.exists_super hnb (a := b.start) (k := b.order) hal hbtop hbS
    exact hmax d (ht.aligned d hd) (htop d hd) (ht.subset hd) hsub ▸ hd

/-- Dropping some tiles leaves a tiling of what the others cover. -/
lemma diff {T₁ T₂ : Set Block} (ht : Tiling base (T₁ ∪ T₂) S) (hd : ∀ b ∈ T₁, b ∉ T₂) :
    Tiling base T₁ {n | n ∈ S ∧ ∀ b ∈ T₂, n ∉ b.pages} := by
  refine ⟨fun b hb => ht.aligned b (.inl hb), ?_, ?_⟩
  · intro n
    constructor
    · rintro ⟨hn, hout⟩
      obtain ⟨b, hb | hb, hnb⟩ := (ht.cover n).1 hn
      · exact ⟨b, hb, hnb⟩
      · exact (hout b hb hnb).elim
    · rintro ⟨b, hb, hnb⟩
      refine ⟨ht.subset (.inl hb) hnb, ?_⟩
      intro c hc hnc
      exact hd b hb (ht.disjoint b (.inl hb) c (.inr hc) n hnb hnc ▸ hc)
  · intro b hb c hc n hnb hnc
    exact ht.disjoint b (.inl hb) c (.inl hc) n hnb hnc

/-- The lengths of the tiles add up to the size of the tiled range. -/
lemma sum_eq {L : List Block} {N : ℕ} (hnd : L.Nodup)
    (ht : Tiling base {b | b ∈ L} (Set.Iio N)) : (L.map fun b => 2 ^ b.order).sum = N := by
  have hU : L.toFinset.biUnion (fun b => Finset.Ico b.start (b.start + 2 ^ b.order))
      = Finset.range N := by
    ext n
    have h := ht.cover n
    simp only [Set.mem_Iio, Set.mem_ofPred_eq, mem_pages] at h
    simp [h]
  have hdis : (L.toFinset : Set Block).PairwiseDisjoint
      (fun b => Finset.Ico b.start (b.start + 2 ^ b.order)) := by
    intro b hb c hc hne
    rw [Function.onFun, Finset.disjoint_left]
    intro n hnb hnc
    refine hne (ht.disjoint b (by simpa using hb) c (by simpa using hc) n ?_ ?_)
    · simpa [mem_pages] using hnb
    · simpa [mem_pages] using hnc
  have hcard := Finset.card_biUnion hdis
  rw [hU, Finset.card_range] at hcard
  rw [hcard, ← List.sum_toFinset _ hnd]
  simp

end Tiling

end KingdoKernel.Tiles
