import KingdoKernel.Slab.Basic
import KingdoKernel.Lib.Tiles

/-!
# The abstract pool of slabs

What the slab allocator keeps, without its bytes: a container per order with a current slab and a
list of partially free slabs, and for every slab its order and its free blocks in the order in which
they will be handed out. The source changes a pool in six ways: a new slab becomes current
(`Pool.add`), the free blocks of a slab change (`Pool.setFree`), the first partial slab becomes current
(`Pool.advance`), a slab is appended to the partial list (`Pool.park`), it leaves the container
(`Pool.detach`), and it disappears (`Pool.drop`).

`Pool.Layout` says that the pool can be laid out in memory above the containers at `base`, and every
intermediate pool of a call satisfies it; `Pool.Settled` says where slabs are between two calls.
`Pool.live` are the blocks that callers hold, `Pool.Owns` are the bytes the allocator reads and writes.
-/

namespace KingdoKernel.Slab
open Tiles

/-! ## Blocks of a slab -/

/-- The blocks of a slab after the first one, which holds the header. -/
def blocks (s k : ℕ) : List ℕ := (List.range' 1 (2 ^ (17 - k) - 1)).map fun i => s + i * 2 ^ k

/-- The blocks of a slab, without its header. -/
lemma mem_blocks {s k b : ℕ} : b ∈ blocks s k ↔ ∃ i, 1 ≤ i ∧ i < 2 ^ (17 - k) ∧ b = s + i * 2 ^ k := by
  have hpos : 0 < 2 ^ (17 - k) := by positivity
  simp only [blocks, List.mem_map, List.mem_range'_1]
  constructor
  · rintro ⟨i, ⟨h1, h2⟩, rfl⟩
    exact ⟨i, h1, by omega, rfl⟩
  · rintro ⟨i, h1, h2, rfl⟩
    exact ⟨i, ⟨h1, by omega⟩, rfl⟩

/-- The first two blocks of a slab. -/
lemma blocks_eq_cons_cons (s : ℕ) {k : ℕ} (hk : k ≤ 15) :
    ∃ l, blocks s k = (s + 2 ^ k) :: (s + 2 * 2 ^ k) :: l := by
  have hge : 2 ^ 2 ≤ 2 ^ (17 - k) := Nat.pow_le_pow_right (by norm_num) (by omega)
  obtain ⟨n, hn⟩ := Nat.exists_eq_add_of_le' (show 2 ≤ 2 ^ (17 - k) - 1 by omega)
  refine ⟨(List.range' 3 n).map fun i => s + i * 2 ^ k, ?_⟩
  rw [blocks, hn]
  simp [List.range'_succ]

/-- The number of blocks of a slab. -/
@[simp] lemma length_blocks (s k : ℕ) : (blocks s k).length = 2 ^ (17 - k) - 1 := by
  simp [blocks]

/-- No block of a slab is listed twice. -/
lemma nodup_blocks (s k : ℕ) : (blocks s k).Nodup := by
  refine (List.nodup_range' (s := 1) (n := 2 ^ (17 - k) - 1) 1).map fun i j e => ?_
  have hpos : 0 < 2 ^ k := by positivity
  exact Nat.eq_of_mul_eq_mul_right hpos (by simpa using e)

/-- The blocks fill the slab after its header. -/
lemma bounds_of_mem_blocks {s k b : ℕ} (hk : k ≤ 17) (hb : b ∈ blocks s k) :
    s + 2 ^ k ≤ b ∧ b + 2 ^ k ≤ s + 2 ^ 17 := by
  obtain ⟨i, h1, h2, rfl⟩ := mem_blocks.1 hb
  have e : 2 ^ 17 = 2 ^ (17 - k) * 2 ^ k := by
    rw [← pow_add, Nat.sub_add_cancel hk]
  have hlo := Nat.mul_le_mul_right (2 ^ k) h1
  have hhi := Nat.mul_le_mul_right (2 ^ k) (show i + 1 ≤ 2 ^ (17 - k) by omega)
  rw [Nat.add_mul] at hhi
  omega

/-- Different blocks of a slab do not overlap. -/
lemma apart_of_mem_blocks {s k b c : ℕ} (hb : b ∈ blocks s k) (hc : c ∈ blocks s k) (hne : b ≠ c) :
    b + 2 ^ k ≤ c ∨ c + 2 ^ k ≤ b := by
  obtain ⟨i, -, -, rfl⟩ := mem_blocks.1 hb
  obtain ⟨j, -, -, rfl⟩ := mem_blocks.1 hc
  rcases Nat.lt_trichotomy i j with h | h | h
  · have := Nat.mul_le_mul_right (2 ^ k) (show i + 1 ≤ j by omega)
    rw [Nat.add_mul] at this
    omega
  · exact absurd (by rw [h]) hne
  · have := Nat.mul_le_mul_right (2 ^ k) (show j + 1 ≤ i by omega)
    rw [Nat.add_mul] at this
    omega

/-- Different slabs do not overlap. -/
lemma apart_of_aligned {s t : ℕ} (hs : 2 ^ 17 ∣ s) (ht : 2 ^ 17 ∣ t) (hne : s ≠ t) :
    s + 2 ^ 17 ≤ t ∨ t + 2 ^ 17 ≤ s := by
  omega

/-! ## Pools -/

/-- A slab: the order of its blocks and the free ones. -/
structure Header where
  order : ℕ
  free : List ℕ

/-- A container: the slab blocks are taken from, and the others that have free blocks. -/
structure Container where
  current : Option ℕ
  partials : List ℕ

/-- The containers by order and the slabs by address. -/
structure Pool where
  container : ℕ → Container
  slab : ℕ → Option Header

/-- The slab at `s` can lie in memory above the containers at `base`. -/
structure Header.WF (base s : ℕ) (σ : Header) : Prop where
  order_ge : 6 ≤ σ.order
  order_le : σ.order ≤ 11
  aligned : 2 ^ 17 ∣ s
  above : base + 192 ≤ s
  below : s + 2 ^ 17 ≤ 2 ^ 64
  nodup : σ.free.Nodup
  blocks : ∀ b ∈ σ.free, b ∈ blocks s σ.order

/-- A block lies within its slab, after the header. -/
lemma Header.WF.bounds {base s b : ℕ} {σ : Header} (h : σ.WF base s)
    (hb : b ∈ Slab.blocks s σ.order) : s + 2 ^ σ.order ≤ b ∧ b + 2 ^ σ.order ≤ s + 2 ^ 17 :=
  bounds_of_mem_blocks (h.order_le.trans (by norm_num)) hb

/-- The allocator's bytes of a slab are in the slab. -/
lemma Header.WF.owned_bounds {base s x : ℕ} {σ : Header} (h : σ.WF base s)
    (hx : (s ≤ x ∧ x < s + 2 ^ σ.order) ∨ ∃ b ∈ σ.free, b ≤ x ∧ x < b + 2 ^ σ.order) :
    s ≤ x ∧ x < s + 2 ^ 17 := by
  have hpow : 2 ^ σ.order ≤ 2 ^ 17 :=
    Nat.pow_le_pow_right (by norm_num) (h.order_le.trans (by norm_num))
  rcases hx with hx | ⟨b, hb, hx⟩
  · omega
  · have := h.bounds (h.blocks b hb)
    omega

/-- A slab has at least 64 blocks, its header included. -/
lemma two_pow_sub_ge {k : ℕ} (h : k ≤ 11) : 64 ≤ 2 ^ (17 - k) :=
  Nat.pow_le_pow_right (n := 2) (i := 6) (by norm_num) (by omega)

/-- A slab has fewer free blocks than blocks. -/
lemma Header.WF.length_free {base s : ℕ} {σ : Header} (h : σ.WF base s) :
    σ.free.length + 1 ≤ 2 ^ (17 - σ.order) := by
  have hsub := (List.subperm_of_subset h.nodup h.blocks).length_le
  have hge := two_pow_sub_ge h.order_le
  rw [length_blocks] at hsub
  omega

namespace Pool

/-- Replace the slab at `s`. -/
def setSlab (P : Pool) (s : ℕ) (σ : Option Header) : Pool :=
  ⟨P.container, Function.update P.slab s σ⟩

/-- Replace the container of order `k`. -/
def setContainer (P : Pool) (k : ℕ) (c : Container) : Pool :=
  ⟨Function.update P.container k c, P.slab⟩

/-- Changing a slab keeps the containers. -/
@[simp] lemma container_setSlab (P : Pool) (s : ℕ) (σ : Option Header) :
    (P.setSlab s σ).container = P.container := rfl

/-- Changing a container keeps the slabs. -/
@[simp] lemma slab_setContainer (P : Pool) (k : ℕ) (c : Container) :
    (P.setContainer k c).slab = P.slab := rfl

/-- The slabs after one has been changed. -/
lemma slab_setSlab (P : Pool) (s t : ℕ) (σ : Option Header) :
    (P.setSlab s σ).slab t = if t = s then σ else P.slab t := by
  simp [setSlab, Function.update_apply]

/-- The containers after one has been changed. -/
lemma container_setContainer (P : Pool) (k j : ℕ) (c : Container) :
    (P.setContainer k c).container j = if j = k then c else P.container j := by
  simp [setContainer, Function.update_apply]

/-- The second of two changes of a container counts. -/
lemma setContainer_setContainer (P : Pool) (k : ℕ) (c c' : Container) :
    (P.setContainer k c).setContainer k c' = P.setContainer k c' := by
  simp [setContainer]

/-- Changing a container to what it is. -/
lemma setContainer_self {P : Pool} {k : ℕ} {c : Container} (h : P.container k = c) :
    P.setContainer k c = P := by
  simp [setContainer, ← h]

/-- The slab at `s` has the free blocks `l`. -/
def setFree (P : Pool) (k s : ℕ) (l : List ℕ) : Pool := P.setSlab s (some ⟨k, l⟩)

/-- A slab with all its blocks free becomes current. -/
def add (P : Pool) (k s : ℕ) : Pool :=
  (P.setFree k s (blocks s k)).setContainer k ⟨some s, (P.container k).partials⟩

/-- The first partial slab becomes current. -/
def advance (P : Pool) (k : ℕ) : Pool :=
  P.setContainer k ⟨(P.container k).partials.head?, (P.container k).partials.tail⟩

/-- A slab joins the partial ones. -/
def park (P : Pool) (k s : ℕ) : Pool :=
  P.setContainer k ⟨(P.container k).current, (P.container k).partials ++ [s]⟩

/-- A slab leaves its container. -/
def detach (P : Pool) (k s : ℕ) : Pool :=
  if (P.container k).current = some s then P.advance k
  else P.setContainer k ⟨(P.container k).current, (P.container k).partials.erase s⟩

/-- A slab disappears. -/
def drop (P : Pool) (s : ℕ) : Pool := P.setSlab s none

/-- Taking a slab out of its container keeps the slabs. -/
@[simp] lemma slab_detach (P : Pool) (k s : ℕ) : (P.detach k s).slab = P.slab := by
  unfold detach
  split_ifs <;> rfl

/-- The slabs with a new one. -/
lemma slab_add (P : Pool) (k s t : ℕ) :
    (P.add k s).slab t = if t = s then some ⟨k, blocks s k⟩ else P.slab t :=
  slab_setSlab _ _ _ _

/-- The slabs after a chain has been changed. -/
lemma slab_setFree (P : Pool) (k s t : ℕ) (l : List ℕ) :
    (P.setFree k s l).slab t = if t = s then some ⟨k, l⟩ else P.slab t :=
  slab_setSlab _ _ _ _

/-- The slabs without one. -/
lemma slab_drop (P : Pool) (s t : ℕ) : (P.drop s).slab t = if t = s then none else P.slab t :=
  slab_setSlab _ _ _ _

/-- The pool can lie in memory: its slabs do, and the containers refer to slabs of their order. -/
structure Layout (base : ℕ) (P : Pool) : Prop where
  slabs : ∀ s σ, P.slab s = some σ → σ.WF base s
  current : ∀ k s, (P.container k).current = some s → ∃ σ, P.slab s = some σ ∧ σ.order = k
  partials : ∀ k, ∀ s ∈ (P.container k).partials, ∃ σ, P.slab s = some σ ∧ σ.order = k
  nodup : ∀ k, (P.container k).partials.Nodup

/-- Where slabs are between two calls: a current slab has a free block, partial ones have between one
and all but one, and the others have none. -/
structure Settled (P : Pool) : Prop where
  current : ∀ k s σ, (P.container k).current = some s → P.slab s = some σ → σ.free ≠ []
  apart : ∀ k s, (P.container k).current = some s → s ∉ (P.container k).partials
  partials : ∀ k, ∀ s ∈ (P.container k).partials, ∀ σ, P.slab s = some σ →
    1 ≤ σ.free.length ∧ σ.free.length + 2 ≤ 2 ^ (17 - k)
  others : ∀ s σ, P.slab s = some σ → (P.container σ.order).current ≠ some s →
    s ∉ (P.container σ.order).partials → σ.free = []

/-- The blocks in the hands of callers. -/
def live (P : Pool) : Set Block :=
  {e | ∃ s σ, P.slab s = some σ ∧ e.order = σ.order ∧ e.start ∈ blocks s σ.order ∧
    e.start ∉ σ.free}

/-- The bytes of the allocator: the containers, the first block of every slab and its free blocks. -/
def Owns (base : ℕ) (P : Pool) (x : ℕ) : Prop :=
  (base ≤ x ∧ x < base + 192) ∨
    ∃ s σ, P.slab s = some σ ∧ ((s ≤ x ∧ x < s + 2 ^ σ.order) ∨
      ∃ b ∈ σ.free, b ≤ x ∧ x < b + 2 ^ σ.order)

variable {base k s b : ℕ} {P : Pool} {σ : Header}

/-- A slab that has left its container is not referred to by it. -/
lemma Layout.not_referred (h : Layout base P) (hs : P.slab s = some σ) {j : ℕ} (hj : j ≠ σ.order) :
    (P.container j).current ≠ some s ∧ s ∉ (P.container j).partials := by
  constructor
  · intro e
    obtain ⟨τ, ht, rfl⟩ := h.current j s e
    rw [hs] at ht
    exact hj (by cases ht; rfl)
  · intro e
    obtain ⟨τ, ht, rfl⟩ := h.partials j s e
    rw [hs] at ht
    exact hj (by cases ht; rfl)

/-! ## Every change keeps the layout -/

/-- A container that names slabs of its order keeps the layout. -/
lemma Layout.setContainer (h : Layout base P) {c : Container}
    (hc : ∀ t, c.current = some t → ∃ σ, P.slab t = some σ ∧ σ.order = k)
    (hp : ∀ t ∈ c.partials, ∃ σ, P.slab t = some σ ∧ σ.order = k) (hn : c.partials.Nodup) :
    Layout base (P.setContainer k c) := by
  refine ⟨h.slabs, ?_, ?_, ?_⟩
  · intro j t ht
    rw [container_setContainer] at ht
    split_ifs at ht with e
    · exact e ▸ hc t ht
    · exact h.current j t ht
  · intro j t ht
    rw [container_setContainer] at ht
    split_ifs at ht with e
    · exact e ▸ hp t ht
    · exact h.partials j t ht
  · intro j
    rw [container_setContainer]
    split_ifs with e
    · exact hn
    · exact h.nodup j

/-- A slab that is referred to keeps its order, so replacing its free blocks keeps the layout. -/
lemma Layout.setFree (h : Layout base P) {l : List ℕ} (hw : Header.WF base s ⟨k, l⟩)
    (hk : ∀ σ, P.slab s = some σ → σ.order = k) : Layout base (P.setFree k s l) := by
  have hkeep : ∀ {j t}, (∃ σ, P.slab t = some σ ∧ σ.order = j) →
      ∃ σ, (P.setFree k s l).slab t = some σ ∧ σ.order = j := by
    rintro j t ⟨σ, ht, rfl⟩
    rw [slab_setFree]
    split_ifs with e
    · exact ⟨_, rfl, (hk σ (e ▸ ht)).symm⟩
    · exact ⟨σ, ht, rfl⟩
  refine ⟨?_, fun j t ht => hkeep (h.current j t ht), fun j t ht => hkeep (h.partials j t ht),
    h.nodup⟩
  intro t σ ht
  rw [slab_setFree] at ht
  split_ifs at ht with e
  · cases ht
    exact e ▸ hw
  · exact h.slabs t σ ht

/-- A new current slab keeps the layout. -/
lemma Layout.add (h : Layout base P) (hw : Header.WF base s ⟨k, Slab.blocks s k⟩)
    (hs : P.slab s = none) : Layout base (P.add k s) := by
  have hf := h.setFree hw fun σ hσ => by simp [hs] at hσ
  refine hf.setContainer ?_ (hf.partials k) (hf.nodup k)
  rintro t ⟨⟩
  exact ⟨_, by rw [slab_setFree, if_pos rfl], rfl⟩

/-- Moving to the first partial slab keeps the layout. -/
lemma Layout.advance (h : Layout base P) : Layout base (P.advance k) := by
  refine h.setContainer ?_ ?_ ((h.nodup k).tail)
  · exact fun t ht => h.partials k t (List.mem_of_mem_head? ht)
  · exact fun t ht => h.partials k t (List.mem_of_mem_tail ht)

/-- Putting a slab into the partial list keeps the layout. -/
lemma Layout.park (h : Layout base P) (hs : P.slab s = some σ) (hk : σ.order = k)
    (hp : s ∉ (P.container k).partials) : Layout base (P.park k s) := by
  refine h.setContainer (h.current k) ?_ ?_
  · intro t ht
    rcases List.mem_append.1 ht with ht | ht
    · exact h.partials k t ht
    · rw [List.mem_singleton.1 ht]
      exact ⟨σ, hs, hk⟩
  · exact (h.nodup k).append (List.nodup_singleton s) (by simpa using hp)

/-- Taking a slab out of its container keeps the layout. -/
lemma Layout.detach (h : Layout base P) : Layout base (P.detach k s) := by
  unfold Pool.detach
  split_ifs with e
  · exact h.advance
  · exact h.setContainer (h.current k) (fun t ht => h.partials k t (List.mem_of_mem_erase ht))
      ((h.nodup k).erase s)

/-- The container of a slab that has been detached. -/
lemma Layout.not_mem_detach (h : Layout base P)
    (hap : (P.container k).current = some s → s ∉ (P.container k).partials) :
    ((P.detach k s).container k).current ≠ some s ∧ s ∉ ((P.detach k s).container k).partials := by
  unfold Pool.detach
  split_ifs with e
  · rw [Pool.advance, container_setContainer, if_pos rfl]
    exact ⟨fun e' => hap e (List.mem_of_mem_head? e'), fun e' => hap e (List.mem_of_mem_tail e')⟩
  · rw [container_setContainer, if_pos rfl]
    exact ⟨e, (h.nodup k).not_mem_erase⟩

/-- Forgetting a slab that no container names keeps the layout. -/
lemma Layout.drop (h : Layout base P) (hs : P.slab s = some σ)
    (hc : (P.container σ.order).current ≠ some s) (hp : s ∉ (P.container σ.order).partials) :
    Layout base (P.drop s) := by
  have hne : ∀ {j t}, ((P.container j).current = some t ∨ t ∈ (P.container j).partials) → t ≠ s := by
    rintro j t ht rfl
    by_cases hj : j = σ.order
    · subst hj
      exact ht.elim hc hp
    · exact ht.elim (h.not_referred hs hj).1 (h.not_referred hs hj).2
  refine ⟨?_, ?_, ?_, h.nodup⟩
  · intro t τ ht
    rw [slab_drop] at ht
    split_ifs at ht
    exact h.slabs t τ ht
  · intro j t ht
    rw [slab_drop, if_neg (hne (.inl ht))]
    exact h.current j t ht
  · intro j t ht
    rw [slab_drop, if_neg (hne (.inr ht))]
    exact h.partials j t ht

/-! ## The blocks of callers -/

/-- A block of a slab, and the slab it lies in. -/
lemma Layout.slab_eq (h : Layout base P) {s' : ℕ} {σ' : Header} (hs : P.slab s = some σ)
    (hs' : P.slab s' = some σ') {x : ℕ} (h1 : s ≤ x ∧ x < s + 2 ^ 17)
    (h2 : s' ≤ x ∧ x < s' + 2 ^ 17) : s = s' := by
  by_contra hne
  have := apart_of_aligned (h.slabs s σ hs).aligned (h.slabs s' σ' hs').aligned hne
  omega

/-- A block belongs to one slab. -/
lemma Layout.slab_eq_of_mem (h : Layout base P) {s' : ℕ} {σ' : Header} (hs : P.slab s = some σ)
    (hs' : P.slab s' = some σ') (hb : b ∈ Slab.blocks s σ.order)
    (hb' : b ∈ Slab.blocks s' σ'.order) : s = s' := by
  have hbd := (h.slabs s σ hs).bounds hb
  have hbd' := (h.slabs s' σ' hs').bounds hb'
  have hpos : 0 < 2 ^ σ.order := by positivity
  have hpos' : 0 < 2 ^ σ'.order := by positivity
  exact h.slab_eq hs hs' (x := b) ⟨by omega, by omega⟩ ⟨by omega, by omega⟩

/-- Callers' blocks are not the allocator's bytes. -/
lemma Layout.not_owns (h : Layout base P) {e : Block} (he : e ∈ P.live) {x : ℕ} (hx : x ∈ e.pages) :
    ¬ P.Owns base x := by
  obtain ⟨s, σ, hs, ho, hb, hf⟩ := he
  have hw := h.slabs s σ hs
  have hbd := hw.bounds hb
  obtain ⟨hx1, hx2⟩ := hx
  rw [ho] at hx2
  rintro (hp | ⟨t, τ, ht, hxt⟩)
  · have := hw.above
    omega
  · have hin := (h.slabs t τ ht).owned_bounds hxt
    have hst := h.slab_eq hs ht ⟨by omega, by omega⟩ hin
    subst hst
    rw [hs] at ht
    cases ht
    rcases hxt with hxt | ⟨c, hc, hxc⟩
    · omega
    · have hne : e.start ≠ c := fun e' => hf (e' ▸ hc)
      have := apart_of_mem_blocks hb (hw.blocks c hc) hne
      omega

/-- Different blocks of callers do not overlap. -/
lemma Layout.live_disjoint (h : Layout base P) {e f : Block} (he : e ∈ P.live) (hf : f ∈ P.live)
    (hne : e ≠ f) {x : ℕ} (hx : x ∈ e.pages) : x ∉ f.pages := by
  obtain ⟨s, σ, hs, heo, heb, -⟩ := he
  obtain ⟨t, τ, ht, hfo, hfb, -⟩ := hf
  have hbd := (h.slabs s σ hs).bounds heb
  have hbd' := (h.slabs t τ ht).bounds hfb
  intro hx'
  obtain ⟨hx1, hx2⟩ := hx
  obtain ⟨hy1, hy2⟩ := hx'
  rw [heo] at hx2
  rw [hfo] at hy2
  have hst := h.slab_eq hs ht (x := x) (by omega) (by omega)
  subst hst
  rw [hs] at ht
  cases ht
  have hne' : e.start ≠ f.start := by
    intro e'
    apply hne
    cases e
    cases f
    simp_all
  have := apart_of_mem_blocks heb hfb hne'
  omega

/-- The blocks of callers depend on the slabs only. -/
lemma live_congr {P Q : Pool} (h : Q.slab = P.slab) : Q.live = P.live := by
  simp only [live, h]

/-- The live blocks of a pool, those of one slab apart. -/
lemma mem_live_setFree {l : List ℕ} {e : Block} :
    e ∈ (P.setFree k s l).live ↔
      (e.order = k ∧ e.start ∈ Slab.blocks s k ∧ e.start ∉ l) ∨
      ∃ t τ, t ≠ s ∧ P.slab t = some τ ∧ e.order = τ.order ∧ e.start ∈ Slab.blocks t τ.order ∧
        e.start ∉ τ.free := by
  constructor
  · rintro ⟨t, τ, ht, h1, h2, h3⟩
    rw [slab_setFree] at ht
    split_ifs at ht with e'
    · cases ht
      subst e'
      exact .inl ⟨h1, h2, h3⟩
    · exact .inr ⟨t, τ, e', ht, h1, h2, h3⟩
  · rintro (⟨h1, h2, h3⟩ | ⟨t, τ, hne, ht, h1, h2, h3⟩)
    · exact ⟨s, ⟨k, l⟩, by rw [slab_setFree, if_pos rfl], h1, h2, h3⟩
    · exact ⟨t, τ, by rw [slab_setFree, if_neg hne, ht], h1, h2, h3⟩

/-- The blocks of callers, in one slab and in the others. -/
lemma mem_live_of_slab {l : List ℕ} (hs : P.slab s = some ⟨k, l⟩) {e : Block} :
    e ∈ P.live ↔
      (e.order = k ∧ e.start ∈ Slab.blocks s k ∧ e.start ∉ l) ∨
      ∃ t τ, t ≠ s ∧ P.slab t = some τ ∧ e.order = τ.order ∧ e.start ∈ Slab.blocks t τ.order ∧
        e.start ∉ τ.free := by
  have e' : (P.setFree k s l).live = P.live := by
    refine live_congr ?_
    funext t
    rw [slab_setFree]
    split_ifs with ht
    · rw [ht, hs]
    · rfl
  rw [← e', mem_live_setFree]

/-- Adding a slab gives nothing to callers. -/
lemma live_add (hs : P.slab s = none) : (P.add k s).live = P.live := by
  ext e
  have h1 : e ∈ (P.add k s).live ↔ e ∈ (P.setFree k s (Slab.blocks s k)).live := Iff.rfl
  rw [h1, mem_live_setFree]
  constructor
  · rintro (⟨-, h2, h3⟩ | ⟨t, τ, -, ht⟩)
    · exact absurd h2 h3
    · exact ⟨t, τ, ht⟩
  · rintro ⟨t, τ, ht, h⟩
    refine .inr ⟨t, τ, ?_, ht, h⟩
    rintro rfl
    rw [hs] at ht
    cases ht

/-- A slab without blocks of callers disappears. -/
lemma live_drop (hs : P.slab s = some σ) (hall : ∀ b ∈ Slab.blocks s σ.order, b ∈ σ.free) :
    (P.drop s).live = P.live := by
  ext e
  constructor
  · rintro ⟨t, τ, ht, h⟩
    rw [slab_drop] at ht
    split_ifs at ht
    exact ⟨t, τ, ht, h⟩
  · rintro ⟨t, τ, ht, h1, h2, h3⟩
    refine ⟨t, τ, ?_, h1, h2, h3⟩
    rw [slab_drop, if_neg, ht]
    rintro rfl
    rw [hs] at ht
    cases ht
    exact h3 (hall _ h2)

/-- The first free block of a slab goes to a caller. -/
lemma live_pop (h : Layout base P) {l : List ℕ} (hs : P.slab s = some ⟨k, b :: l⟩) :
    (P.setFree k s l).live = insert ⟨b, k⟩ P.live := by
  have hw := h.slabs s _ hs
  have hb := hw.blocks b List.mem_cons_self
  have hnot := (List.nodup_cons.1 hw.nodup).1
  ext ⟨c, j⟩
  rw [mem_live_setFree, Set.mem_insert_iff, mem_live_of_slab hs]
  simp only [List.mem_cons, Block.mk.injEq]
  constructor
  · rintro (⟨rfl, h2, h3⟩ | ht)
    · by_cases e : c = b
      · exact .inl ⟨e, rfl⟩
      · exact .inr (.inl ⟨rfl, h2, not_or.2 ⟨e, h3⟩⟩)
    · exact .inr (.inr ht)
  · rintro (⟨rfl, rfl⟩ | ⟨rfl, h2, h3⟩ | ht)
    · exact .inl ⟨rfl, hb, hnot⟩
    · exact .inl ⟨rfl, h2, (not_or.1 h3).2⟩
    · exact .inr ht

/-- A block of a caller comes back to its slab. -/
lemma live_push (h : Layout base P) {l : List ℕ} (hs : P.slab s = some ⟨k, l⟩)
    (hb : b ∈ Slab.blocks s k) : (P.setFree k s (b :: l)).live = P.live \ {⟨b, k⟩} := by
  ext ⟨c, j⟩
  rw [mem_live_setFree, Set.mem_sdiff, mem_live_of_slab hs]
  simp only [List.mem_cons, Set.mem_singleton_iff, Block.mk.injEq]
  constructor
  · rintro (⟨rfl, h2, h3⟩ | ⟨t, τ, hne, ht, h1, h2, h3⟩)
    · rw [not_or] at h3
      exact ⟨.inl ⟨rfl, h2, h3.2⟩, fun e => h3.1 e.1⟩
    · refine ⟨.inr ⟨t, τ, hne, ht, h1, h2, h3⟩, ?_⟩
      rintro ⟨rfl, -⟩
      exact hne (h.slab_eq_of_mem ht hs h2 hb)
  · rintro ⟨⟨rfl, h2, h3⟩ | ht, hne⟩
    · exact .inl ⟨rfl, h2, not_or.2 ⟨fun e => hne ⟨e, rfl⟩, h3⟩⟩
    · exact .inr ht

/-! ## The bytes of the allocator -/

/-- The header of a slab belongs to the allocator. -/
lemma owns_header (hs : P.slab s = some σ) (ho : σ.order = k) {x : ℕ} (h1 : s ≤ x)
    (h2 : x < s + 2 ^ k) : P.Owns base x :=
  .inr ⟨s, σ, hs, .inl ⟨h1, ho ▸ h2⟩⟩

/-- A new slab takes nothing from the allocator. -/
lemma owns_add (hs : P.slab s = none) {x : ℕ} (hx : P.Owns base x) : (P.add k s).Owns base x := by
  rcases hx with hx | ⟨t, τ, ht, hx⟩
  · exact .inl hx
  · refine .inr ⟨t, τ, ?_, hx⟩
    rw [slab_add, if_neg, ht]
    rintro rfl
    rw [hs] at ht
    cases ht

/-- All of a new slab belongs to the allocator. -/
lemma owns_add_slab (hk : k ≤ 17) {x : ℕ} (h1 : s ≤ x) (h2 : x < s + 2 ^ 17) :
    (P.add k s).Owns base x := by
  refine .inr ⟨s, ⟨k, Slab.blocks s k⟩, by rw [slab_add, if_pos rfl], ?_⟩
  have hpos : 0 < 2 ^ k := by positivity
  have hmul : 2 ^ k * 2 ^ (17 - k) = 2 ^ 17 := by
    rw [← pow_add, Nat.add_sub_cancel' hk]
  have hdiv := Nat.div_add_mod (x - s) (2 ^ k)
  have hmod := Nat.mod_lt (x - s) hpos
  by_cases hi : (x - s) / 2 ^ k = 0
  · left
    rw [hi, Nat.mul_zero] at hdiv
    exact ⟨h1, by show x < s + 2 ^ k; omega⟩
  · have hlt : (x - s) / 2 ^ k < 2 ^ (17 - k) := Nat.div_lt_of_lt_mul (by omega)
    refine .inr ⟨s + (x - s) / 2 ^ k * 2 ^ k, mem_blocks.2 ⟨_, Nat.pos_of_ne_zero hi, hlt, rfl⟩, ?_⟩
    rw [Nat.mul_comm] at hdiv
    exact ⟨by omega, by show x < s + (x - s) / 2 ^ k * 2 ^ k + 2 ^ k; omega⟩

/-- When a block leaves a chain only its bytes leave the allocator. -/
lemma owns_pop {l : List ℕ} (hs : P.slab s = some ⟨k, b :: l⟩) {x : ℕ} (hx : P.Owns base x) :
    (P.setFree k s l).Owns base x ∨ (b ≤ x ∧ x < b + 2 ^ k) := by
  rcases hx with hx | ⟨t, τ, ht, hx⟩
  · exact .inl (.inl hx)
  · by_cases e : t = s
    · subst e
      rw [hs] at ht
      cases ht
      have hself : (P.setFree k t l).slab t = some ⟨k, l⟩ := by rw [slab_setFree, if_pos rfl]
      rcases hx with hx | ⟨c, hc, hx⟩
      · exact .inl (.inr ⟨t, _, hself, .inl hx⟩)
      · rcases List.mem_cons.1 hc with rfl | hc
        · exact .inr hx
        · exact .inl (.inr ⟨t, _, hself, .inr ⟨c, hc, hx⟩⟩)
    · exact .inl (.inr ⟨t, τ, by rw [slab_setFree, if_neg e, ht], hx⟩)

/-- When a block joins a chain only its bytes join the allocator. -/
lemma owns_push {l : List ℕ} (hs : P.slab s = some ⟨k, l⟩) {x : ℕ}
    (hx : (P.setFree k s (b :: l)).Owns base x) : P.Owns base x ∨ (b ≤ x ∧ x < b + 2 ^ k) := by
  rcases hx with hx | ⟨t, τ, ht, hx⟩
  · exact .inl (.inl hx)
  · rw [slab_setFree] at ht
    split_ifs at ht with e
    · cases ht
      subst e
      rcases hx with hx | ⟨c, hc, hx⟩
      · exact .inl (.inr ⟨t, _, hs, .inl hx⟩)
      · rcases List.mem_cons.1 hc with rfl | hc
        · exact .inr hx
        · exact .inl (.inr ⟨t, _, hs, .inr ⟨c, hc, hx⟩⟩)
    · exact .inl (.inr ⟨t, τ, ht, hx⟩)

/-! ## Where slabs are between two calls -/

/-- A slab referred to by a container, other than the one whose free blocks change. -/
lemma slab_setFree_of_ne {l : List ℕ} {t : ℕ} (h : t ≠ s) : (P.setFree k s l).slab t = P.slab t := by
  rw [slab_setFree, if_neg h]

/-- The containers with a new current slab. -/
lemma container_add (P : Pool) (k s j : ℕ) :
    (P.add k s).container j =
      if j = k then ⟨some s, (P.container k).partials⟩ else P.container j :=
  container_setContainer _ _ _ _

/-- The containers after a move to the first partial slab. -/
lemma container_advance (P : Pool) (k j : ℕ) :
    (P.advance k).container j =
      if j = k then ⟨(P.container k).partials.head?, (P.container k).partials.tail⟩
      else P.container j :=
  container_setContainer _ _ _ _

/-- The containers after a slab has been put into the partial list. -/
lemma container_park (P : Pool) (k s j : ℕ) :
    (P.park k s).container j =
      if j = k then ⟨(P.container k).current, (P.container k).partials ++ [s]⟩
      else P.container j :=
  container_setContainer _ _ _ _

/-- The containers after a slab has been taken out. -/
lemma container_detach (P : Pool) (k s j : ℕ) :
    (P.detach k s).container j =
      if j = k then (if (P.container k).current = some s
        then ⟨(P.container k).partials.head?, (P.container k).partials.tail⟩
        else ⟨(P.container k).current, (P.container k).partials.erase s⟩) else P.container j := by
  unfold detach
  by_cases e : (P.container k).current = some s
  · rw [if_pos e, if_pos e]
    exact container_advance _ _ _
  · rw [if_neg e, if_neg e]
    exact container_setContainer _ _ _ _

/-- An element that is not the first one is in the tail. -/
lemma mem_tail_of_head?_ne {l : List ℕ} {t : ℕ} (h : t ∈ l) (hne : l.head? ≠ some t) : t ∈ l.tail := by
  cases l with
  | nil => cases h
  | cons u us =>
    rcases List.mem_cons.1 h with rfl | h
    · exact absurd rfl hne
    · exact h

/-- The first element is not in the tail. -/
lemma not_mem_tail_of_head? {l : List ℕ} {t : ℕ} (h : l.Nodup) (ht : l.head? = some t) :
    t ∉ l.tail := by
  cases l with
  | nil => cases ht
  | cons u us =>
    cases ht
    exact (List.nodup_cons.1 h).1

/-- A container without a current slab may get a new one. -/
lemma Settled.add (h : P.Settled) (hl : Layout base P) (h11 : k ≤ 11) (hs : P.slab s = none)
    (hc : (P.container k).current = none) : (P.add k s).Settled := by
  have hge := two_pow_sub_ge h11
  have hne : ∀ {t σ}, P.slab t = some σ → t ≠ s := by
    rintro t σ ht rfl
    rw [hs] at ht
    cases ht
  refine ⟨?_, ?_, ?_, ?_⟩
  · intro j t σ ht hσ
    rw [container_add] at ht
    split_ifs at ht with e
    · cases ht
      rw [slab_add, if_pos rfl] at hσ
      cases hσ
      have hlen := length_blocks s k
      exact List.length_pos_iff.1 (show 0 < (Slab.blocks s k).length by omega)
    · obtain ⟨τ, hτ, -⟩ := hl.current j t ht
      rw [slab_add, if_neg (hne hτ)] at hσ
      exact h.current j t σ ht hσ
  · intro j t ht
    rw [container_add] at ht ⊢
    split_ifs at ht ⊢ with e
    · cases ht
      intro hp
      obtain ⟨τ, hτ, -⟩ := hl.partials k s hp
      exact hne hτ rfl
    · exact h.apart j t ht
  · intro j t ht σ hσ
    have ht' : t ∈ (P.container j).partials := by
      rw [container_add] at ht
      split_ifs at ht with e
      · exact e ▸ ht
      · exact ht
    obtain ⟨τ, hτ, -⟩ := hl.partials j t ht'
    rw [slab_add, if_neg (hne hτ)] at hσ
    exact h.partials j t ht' σ hσ
  · intro t σ hσ hcur hp
    rw [slab_add] at hσ
    split_ifs at hσ with e
    · cases hσ
      rw [container_add, if_pos rfl, e] at hcur
      exact absurd rfl hcur
    · rw [container_add] at hcur hp
      split_ifs at hcur hp with ek
      · refine h.others t σ hσ ?_ (by rw [ek]; exact hp)
        rw [ek, hc]
        exact Option.some_ne_none t ∘ Eq.symm
      · exact h.others t σ hσ hcur hp

/-- The current slab gives a block and has others left. -/
lemma Settled.pop (h : P.Settled) (hl : Layout base P) {l : List ℕ}
    (hc : (P.container k).current = some s) (hs : P.slab s = some ⟨k, b :: l⟩) (hne : l ≠ []) :
    (P.setFree k s l).Settled := by
  have hp : ∀ j, s ∉ (P.container j).partials := by
    intro j
    by_cases hj : j = k
    · subst hj
      exact h.apart j s hc
    · exact (hl.not_referred hs hj).2
  refine ⟨?_, h.apart, ?_, ?_⟩
  · intro j t σ ht hσ
    rw [slab_setFree] at hσ
    split_ifs at hσ with e
    · cases hσ
      exact hne
    · exact h.current j t σ ht hσ
  · intro j t ht σ hσ
    rw [slab_setFree_of_ne (fun e : t = s => hp j (e ▸ ht))] at hσ
    exact h.partials j t ht σ hσ
  · intro t σ hσ hcur hpt
    rw [slab_setFree] at hσ
    split_ifs at hσ with e
    · cases hσ
      exact absurd (e ▸ hc) hcur
    · exact h.others t σ hσ hcur hpt

/-- The current slab gives its last block and the first partial one takes its place. -/
lemma Settled.exhaust (h : P.Settled) (hl : Layout base P)
    (hc : (P.container k).current = some s) (hs : P.slab s = some ⟨k, [b]⟩) :
    ((P.setFree k s []).advance k).Settled := by
  have hp : ∀ j, s ∉ (P.container j).partials := by
    intro j
    by_cases hj : j = k
    · subst hj
      exact h.apart j s hc
    · exact (hl.not_referred hs hj).2
  have hslab : ∀ {t σ}, t ≠ s → ((P.setFree k s []).advance k).slab t = some σ → P.slab t = some σ := by
    intro t σ hne ht
    have ht' : (P.setFree k s []).slab t = some σ := ht
    rwa [slab_setFree_of_ne hne] at ht'
  have hcont : ∀ j, ((P.setFree k s []).advance k).container j = (P.advance k).container j :=
    fun j => rfl
  refine ⟨?_, ?_, ?_, ?_⟩
  · intro j t σ ht hσ
    rw [hcont, container_advance] at ht
    split_ifs at ht with e
    · have htp : t ∈ (P.container k).partials := List.mem_of_mem_head? ht
      have hlen := (h.partials k t htp σ (hslab (fun e => hp k (e ▸ htp)) hσ)).1
      exact List.length_pos_iff.1 hlen
    · refine h.current j t σ ht (hslab ?_ hσ)
      rintro rfl
      exact (hl.not_referred hs e).1 ht
  · intro j t ht
    rw [hcont, container_advance] at ht ⊢
    split_ifs at ht ⊢ with e
    · exact not_mem_tail_of_head? (hl.nodup k) ht
    · exact h.apart j t ht
  · intro j t ht σ hσ
    have ht' : t ∈ (P.container j).partials := by
      rw [hcont, container_advance] at ht
      split_ifs at ht with e
      · exact e ▸ List.mem_of_mem_tail ht
      · exact ht
    exact h.partials j t ht' σ (hslab (fun e => hp j (e ▸ ht')) hσ)
  · intro t σ hσ hcur hpt
    by_cases e : t = s
    · subst e
      have hσ' : (P.setFree k t []).slab t = some σ := hσ
      rw [slab_setFree, if_pos rfl] at hσ'
      cases hσ'
      rfl
    · rw [hcont, container_advance] at hcur hpt
      split_ifs at hcur hpt with ek
      · refine h.others t σ (hslab e hσ) ?_ ?_
        · rw [ek, hc]
          exact fun e' => e (Option.some.inj e').symm
        · rw [ek]
          exact fun htp => hpt (mem_tail_of_head?_ne htp hcur)
      · exact h.others t σ (hslab e hσ) hcur hpt

/-- A full slab gets its first block back and joins the partial ones. -/
lemma Settled.park (h : P.Settled) (h11 : k ≤ 11)
    (hs : P.slab s = some ⟨k, []⟩) : ((P.setFree k s [b]).park k s).Settled := by
  have hge := two_pow_sub_ge h11
  have hcs : ∀ j, (P.container j).current ≠ some s := fun j e => h.current j s _ e hs rfl
  have hps : ∀ j, s ∉ (P.container j).partials := by
    intro j e
    have := (h.partials j s e _ hs).1
    simp at this
  have hcont : ∀ j, ((P.setFree k s [b]).park k s).container j = (P.park k s).container j :=
    fun j => rfl
  have hslab : ∀ {t σ}, t ≠ s → ((P.setFree k s [b]).park k s).slab t = some σ → P.slab t = some σ := by
    intro t σ hne ht
    have ht' : (P.setFree k s [b]).slab t = some σ := ht
    rwa [slab_setFree_of_ne hne] at ht'
  refine ⟨?_, ?_, ?_, ?_⟩
  · intro j t σ ht hσ
    have ht' : (P.container j).current = some t := by
      rw [hcont, container_park] at ht
      split_ifs at ht with e
      · exact e ▸ ht
      · exact ht
    exact h.current j t σ ht' (hslab (fun e => hcs j (e ▸ ht')) hσ)
  · intro j t ht
    rw [hcont, container_park] at ht ⊢
    split_ifs at ht ⊢ with e
    · rw [List.mem_append, List.mem_singleton]
      rintro (e' | rfl)
      · exact h.apart k t ht e'
      · exact hcs k ht
    · exact h.apart j t ht
  · intro j t ht σ hσ
    by_cases e : t = s
    · subst e
      have hσ' : (P.setFree k t [b]).slab t = some σ := hσ
      rw [slab_setFree, if_pos rfl] at hσ'
      cases hσ'
      have hj : j = k := by
        by_contra hj
        rw [hcont, container_park, if_neg hj] at ht
        exact hps j ht
      rw [hj, List.length_singleton]
      omega
    · refine h.partials j t ?_ σ (hslab e hσ)
      rw [hcont, container_park] at ht
      split_ifs at ht with ej
      · rcases List.mem_append.1 ht with ht | ht
        · exact ej ▸ ht
        · exact absurd (List.mem_singleton.1 ht) e
      · exact ht
  · intro t σ hσ hcur hpt
    by_cases e : t = s
    · subst e
      have hσ' : (P.setFree k t [b]).slab t = some σ := hσ
      rw [slab_setFree, if_pos rfl] at hσ'
      cases hσ'
      rw [hcont, container_park, if_pos rfl] at hpt
      exact absurd (by simp) hpt
    · rw [hcont, container_park] at hcur hpt
      split_ifs at hcur hpt with ek
      · refine h.others t σ (hslab e hσ) (by rw [ek]; exact hcur) ?_
        rw [ek]
        exact fun htp => hpt (List.mem_append_left _ htp)
      · exact h.others t σ (hslab e hσ) hcur hpt

/-- A slab that is neither full before nor empty after gets a block back. -/
lemma Settled.push (h : P.Settled) {l : List ℕ} (hs : P.slab s = some ⟨k, l⟩) (hne : l ≠ [])
    (hlt : l.length + 2 ≠ 2 ^ (17 - k)) (hl : Layout base P) : (P.setFree k s (b :: l)).Settled := by
  refine ⟨?_, h.apart, ?_, ?_⟩
  · intro j t σ ht hσ
    rw [slab_setFree] at hσ
    split_ifs at hσ with e
    · cases hσ
      exact List.cons_ne_nil _ _
    · exact h.current j t σ ht hσ
  · intro j t ht σ hσ
    rw [slab_setFree] at hσ
    split_ifs at hσ with e
    · cases hσ
      subst e
      obtain ⟨τ, hτ, hj⟩ := hl.partials j t ht
      rw [hs] at hτ
      cases hτ
      have := h.partials j t ht _ hs
      simp only [List.length_cons] at this hj ⊢
      subst hj
      omega
    · exact h.partials j t ht σ hσ
  · intro t σ hσ hcur hpt
    rw [slab_setFree] at hσ
    split_ifs at hσ with e
    · cases hσ
      subst e
      exact absurd (h.others t _ hs hcur hpt) hne
    · exact h.others t σ hσ hcur hpt

/-- A slab leaves its container and disappears. -/
lemma Settled.retire (h : P.Settled) (hl : Layout base P) {l' : List ℕ} :
    (((P.setFree k s l').detach k s).drop s).Settled := by
  have hslab : ∀ {t σ}, (((P.setFree k s l').detach k s).drop s).slab t = some σ →
      t ≠ s ∧ P.slab t = some σ := by
    intro t σ ht
    rw [slab_drop, slab_detach] at ht
    split_ifs at ht with e
    rw [slab_setFree_of_ne e] at ht
    exact ⟨e, ht⟩
  -- what is left in a container was there before
  have hcont : ∀ j, (((P.setFree k s l').detach k s).drop s).container j =
      if j = k then (if (P.container k).current = some s
        then ⟨(P.container k).partials.head?, (P.container k).partials.tail⟩
        else ⟨(P.container k).current, (P.container k).partials.erase s⟩) else P.container j :=
    container_detach (P.setFree k s l') k s
  refine ⟨?_, ?_, ?_, ?_⟩
  · intro j t σ ht hσ
    obtain ⟨hne, hσ'⟩ := hslab hσ
    rw [hcont] at ht
    split_ifs at ht with e1 e2
    · have hlen := (h.partials k t (List.mem_of_mem_head? ht) σ hσ').1
      exact List.length_pos_iff.1 hlen
    · exact h.current k t σ ht hσ'
    · exact h.current j t σ ht hσ'
  · intro j t ht
    rw [hcont] at ht ⊢
    split_ifs at ht ⊢ with e1 e2
    · exact not_mem_tail_of_head? (hl.nodup k) ht
    · exact fun e => h.apart k t ht (List.mem_of_mem_erase e)
    · exact h.apart j t ht
  · intro j t ht σ hσ
    refine h.partials j t ?_ σ (hslab hσ).2
    rw [hcont] at ht
    split_ifs at ht with e1 e2
    · exact e1 ▸ List.mem_of_mem_tail ht
    · exact e1 ▸ List.mem_of_mem_erase ht
    · exact ht
  · intro t σ hσ hcur hpt
    obtain ⟨hne, hσ'⟩ := hslab hσ
    rw [hcont] at hcur hpt
    split_ifs at hcur hpt with e1 e2
    · refine h.others t σ hσ' ?_ ?_
      · rw [e1, e2]
        exact fun e' => hne (Option.some.inj e').symm
      · rw [e1]
        exact fun htp => hpt (mem_tail_of_head?_ne htp hcur)
    · refine h.others t σ hσ' (by rw [e1]; exact hcur) ?_
      rw [e1]
      exact fun htp => hpt ((List.mem_erase_of_ne hne).2 htp)
    · exact h.others t σ hσ' hcur hpt

end Pool

end KingdoKernel.Slab
