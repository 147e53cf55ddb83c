import KingdoKernel.Slab.Heap

/-!
# Slabs in reserve

A slab none of whose blocks is in use is given back to the buddy allocator, with one exception:
`__slab_alloc` looks for another current slab as soon as the old one has given its last block, and
where it finds no partial slab it takes a new chunk. That slab is `Pool.Pristine` until the next block of
its order is asked for.

* `alloc_pristine`: which calls leave a pristine slab (`Heap.Refills`).
* `free_pristine`: giving blocks back does not change what is pristine.
* `Inv.slabChunks_eq_empty_iff`: with no block in use, the slabs that are left are the pristine ones.
-/

namespace KingdoKernel.Slab
open Tiles Buddy

/-- All blocks of the current slab of order `k` are free. -/
def Pool.Pristine (P : Pool) (k : ℕ) : Prop :=
  ∃ s l, (P.container k).current = some s ∧ P.slab s = some ⟨k, l⟩ ∧ l.length + 1 = 2 ^ (17 - k)

namespace Pool

variable {base k s b j : ℕ} {P Q : Pool}

/-- Whether a slab is in reserve depends on the current slab only. -/
lemma pristine_congr (hc : (Q.container j).current = (P.container j).current)
    (hs : ∀ s, (P.container j).current = some s → Q.slab s = P.slab s) :
    Q.Pristine j ↔ P.Pristine j := by
  constructor
  · rintro ⟨s, l, h1, h2, h3⟩
    rw [hc] at h1
    exact ⟨s, l, h1, hs s h1 ▸ h2, h3⟩
  · rintro ⟨s, l, h1, h2, h3⟩
    exact ⟨s, l, hc.trans h1, (hs s h1).trans h2, h3⟩

/-- The current slab decides. -/
lemma pristine_iff {l : List ℕ} (hc : (P.container k).current = some s)
    (hs : P.slab s = some ⟨k, l⟩) : P.Pristine k ↔ l.length + 1 = 2 ^ (17 - k) := by
  constructor
  · rintro ⟨t, l', ht, hl', h⟩
    rw [hc] at ht
    cases ht
    rw [hs] at hl'
    cases hl'
    exact h
  · exact fun h => ⟨s, l, hc, hs, h⟩

/-- Without a current slab there is none in reserve. -/
lemma not_pristine_of_none (hc : (P.container k).current = none) : ¬ P.Pristine k := by
  rintro ⟨s, l, h, -⟩
  rw [hc] at h
  cases h

/-- A slab that was partial has blocks in use. -/
lemma Settled.not_pristine_advance (h : P.Settled) (hp : s ∉ (P.container k).partials)
    (hQ : ∀ t, t ≠ s → Q.slab t = P.slab t)
    (hc : (Q.container k).current = (P.container k).partials.head?) : ¬ Q.Pristine k := by
  rintro ⟨t, l, ht, hl, hlen⟩
  rw [hc] at ht
  have htp : t ∈ (P.container k).partials := List.mem_of_mem_head? ht
  rw [hQ t fun e => hp (e ▸ htp)] at hl
  have := (h.partials k t htp _ hl).2
  simp only [] at this
  omega

end Pool

namespace Heap

variable {base k s b j : ℕ} {h h' : Heap} {pages : Set Block}

/-- The next block of order `k` is the last one of the current slab, there is no partial slab, and the
buddy allocator has a chunk for a new one. -/
def Refills (h : Heap) (k : ℕ) : Prop :=
  (∃ s b, (h.pool.container k).current = some s ∧ h.pool.slab s = some ⟨k, [b]⟩) ∧
    (h.pool.container k).partials = [] ∧ ¬ h.buddy.Exhausted 5

/-- A call on slabs of order `k` does not concern the containers of other orders. -/
lemma Core.pristine_of_ne (hc : Core base h pages) {σ : Header} (hs : h.pool.slab s = some σ)
    {Q : Pool} (hj : j ≠ σ.order) (hQ : ∀ t, t ≠ s → (∃ σ, h.pool.slab t = some σ) → Q.slab t = h.pool.slab t)
    (hcur : Q.container j = h.pool.container j) : Q.Pristine j ↔ h.pool.Pristine j := by
  refine Pool.pristine_congr (by rw [hcur]) fun t ht => hQ t ?_ ?_
  · rintro rfl
    exact (hc.layout.not_referred hs hj).1 ht
  · obtain ⟨τ, hτ, -⟩ := hc.layout.current j t ht
    exact ⟨τ, hτ⟩

/-- Looking for another current slab. -/
lemma refill_pristine (hi : Inv base h pages) (h6 : 6 ≤ k) (h11 : k ≤ 11)
    (hc : (h.pool.container k).current = some s) (hs : h.pool.slab s = some ⟨k, [b]⟩)
    (e : refill ⟨h.buddy, h.pool.setFree k s []⟩ k = .ok h') :
    (h'.pool.Pristine k ↔ h.Refills k) ∧ ∀ j, j ≠ k → (h'.pool.Pristine j ↔ h.pool.Pristine j) := by
  have hadv := (hi.toCore.pop hs).advance (k := k)
  have hset : ∀ t, t ≠ s → (h.pool.setFree k s []).slab t = h.pool.slab t :=
    fun t ht => Pool.slab_setFree_of_ne ht
  have hcont : ∀ j, j ≠ k → ((h.pool.setFree k s []).advance k).container j = h.pool.container j :=
    fun j hj => (Pool.container_advance _ _ _).trans (if_neg hj)
  have hkept : ¬ ((h.pool.setFree k s []).advance k).Pristine k := by
    refine hi.settled.not_pristine_advance (hi.settled.apart k s hc) hset ?_
    rw [Pool.container_advance, if_pos rfl]
    rfl
  have hother : ∀ j, j ≠ k →
      (((h.pool.setFree k s []).advance k).Pristine j ↔ h.pool.Pristine j) :=
    fun j hj => hi.toCore.pristine_of_ne hs hj (fun t ht _ => hset t ht) (hcont j hj)
  unfold refill at e
  have hpart : ((h.pool.setFree k s []).container k).partials = (h.pool.container k).partials := rfl
  cases hp : (h.pool.container k).partials with
  | cons t ts =>
    rw [hpart, hp] at e
    cases e
    refine ⟨iff_of_false hkept ?_, hother⟩
    rintro ⟨-, hnil, -⟩
    rw [hp] at hnil
    cases hnil
  | nil =>
    rw [hpart, hp] at e
    rcases grow_spec hadv h6 h11 with ⟨eg, hex⟩ | ⟨s2, b2, eg, hfresh, -, -, -, hex⟩
    · simp only [grow_none eg, ok_bind, pure_eq_ok, Except.ok.injEq] at e
      subst e
      exact ⟨iff_of_false hkept fun hr => hr.2.2 hex, hother⟩
    · simp only [eg.grow, ok_bind, pure_eq_ok, Except.ok.injEq] at e
      subst e
      have hge := two_pow_sub_ge h11
      have hlen := length_blocks s2 k
      refine ⟨iff_of_true ?_ ⟨⟨s, b, hc, hs⟩, hp, hex⟩, fun j hj => ?_⟩
      · refine ⟨s2, Slab.blocks s2 k, ?_, ?_, by omega⟩
        · rw [Pool.container_add, if_pos rfl]
        · rw [Pool.slab_add, if_pos rfl]
      · rw [← hother j hj]
        refine Pool.pristine_congr (by rw [Pool.container_add, if_neg hj]) fun t ht => ?_
        obtain ⟨τ, hτ, -⟩ := hadv.layout.current j t ht
        rw [Pool.slab_add, if_neg]
        rintro rfl
        rw [hfresh] at hτ
        cases hτ

/-- Which slabs are in reserve after a block has been taken. -/
lemma take_pristine (hi : Inv base h pages) (h6 : 6 ≤ k) (h11 : k ≤ 11)
    (hc : (h.pool.container k).current = some s) (e : h.take k s = .ok (b, h')) :
    (h'.pool.Pristine k ↔ h.Refills k) ∧ ∀ j, j ≠ k → (h'.pool.Pristine j ↔ h.pool.Pristine j) := by
  obtain ⟨c, l, hs⟩ := hi.current_free hc
  rw [take, hs] at e
  simp only [] at e
  by_cases hl : l = []
  · subst hl
    rw [if_pos rfl] at e
    obtain ⟨h2, e2, e3⟩ := bind_eq_ok.1 e
    cases e3
    exact refill_pristine hi h6 h11 hc hs e2
  · rw [if_neg hl] at e
    cases e
    have hlen := (hi.layout.slabs s _ hs).length_free
    simp only [List.length_cons] at hlen
    refine ⟨iff_of_false ?_ ?_, fun j hj => ?_⟩
    · have hs' : (h.pool.setFree k s l).slab s = some ⟨k, l⟩ := by
        rw [Pool.slab_setFree, if_pos rfl]
      rw [Pool.pristine_iff (P := h.pool.setFree k s l) hc hs']
      omega
    · rintro ⟨⟨t, c', ht, hs'⟩, -⟩
      rw [hc] at ht
      cases ht
      rw [hs] at hs'
      cases hs'
      exact hl rfl
    · exact hi.toCore.pristine_of_ne hs hj (fun t ht _ => Pool.slab_setFree_of_ne ht) rfl

/-- Which slabs are pristine after `__slab_alloc`. -/
lemma alloc_pristine (hi : Inv base h pages) (h6 : 6 ≤ k) (h11 : k ≤ 11)
    (e : h.alloc k = .ok (b, h')) :
    (h'.pool.Pristine k ↔ h.Refills k) ∧ ∀ j, j ≠ k → (h'.pool.Pristine j ↔ h.pool.Pristine j) := by
  unfold alloc at e
  cases hc : (h.pool.container k).current with
  | some s =>
    rw [hc] at e
    exact take_pristine hi h6 h11 hc e
  | none =>
    rw [hc] at e
    have hnot : ¬ h.Refills k := by
      rintro ⟨⟨s, c, hs, -⟩, -⟩
      rw [hc] at hs
      cases hs
    rcases grow_spec hi.toCore h6 h11 with ⟨eg, -⟩ | ⟨s, b2, eg, hfresh, hcore, -⟩
    · simp only [grow_none eg, ok_bind, pure_eq_ok, Except.ok.injEq, Prod.mk.injEq] at e
      obtain ⟨-, rfl⟩ := e
      exact ⟨iff_of_false (Pool.not_pristine_of_none hc) hnot, fun j _ => Iff.rfl⟩
    · simp only [eg.grow, ok_bind] at e
      have hcur : ((h.pool.add k s).container k).current = some s := by
        rw [Pool.container_add, if_pos rfl]
      have hslab : (h.pool.add k s).slab s = some ⟨k, Slab.blocks s k⟩ := by
        rw [Pool.slab_add, if_pos rfl]
      obtain ⟨h1, h2⟩ := take_pristine ⟨hcore, hi.settled.add hi.layout h11 hfresh hc⟩ h6 h11 hcur e
      refine ⟨h1.trans (iff_of_false ?_ hnot), fun j hj => (h2 j hj).trans ?_⟩
      · -- a new slab has more than one block
        rintro ⟨⟨t, c, ht, hs'⟩, -⟩
        rw [hcur] at ht
        cases ht
        rw [hslab] at hs'
        have hge := two_pow_sub_ge h11
        have hlen := length_blocks s k
        injection hs' with hs'
        injection hs' with _ hs'
        rw [hs', List.length_singleton] at hlen
        omega
      · refine Pool.pristine_congr (by rw [Pool.container_add, if_neg hj]) fun t ht => ?_
        obtain ⟨τ, hτ, -⟩ := hi.layout.current j t ht
        rw [Pool.slab_add, if_neg]
        rintro rfl
        rw [hfresh] at hτ
        cases hτ

/-- Giving a block back makes no slab pristine. -/
lemma free_pristine (hi : Inv base h pages) {σ : Header} (hs : h.pool.slab s = some σ)
    (hb : b ∈ blocks s σ.order) (hf : b ∉ σ.free) (e : h.free s b = .ok h') (j : ℕ) :
    h'.pool.Pristine j ↔ h.pool.Pristine j := by
  obtain ⟨k, l⟩ := σ
  have hw := hi.layout.slabs s _ hs
  have hpush : Header.WF base s ⟨k, b :: l⟩ :=
    ⟨hw.order_ge, hw.order_le, hw.aligned, hw.above, hw.below, List.nodup_cons.2 ⟨hf, hw.nodup⟩, by
      intro c hc
      rcases List.mem_cons.1 hc with rfl | hc
      · exact hb
      · exact hw.blocks c hc⟩
  have hlen := hpush.length_free
  simp only [List.length_cons] at hlen
  have hslab : ∀ t, t ≠ s → (h.pool.setFree k s (b :: l)).slab t = h.pool.slab t :=
    fun t ht => Pool.slab_setFree_of_ne ht
  -- the slab is not pristine before, having a block in use
  have hbefore : (h.pool.container k).current = some s → ¬ h.pool.Pristine k := by
    intro hc
    rw [Pool.pristine_iff hc hs]
    omega
  rw [free, hs] at e
  simp only [settle] at e
  split_ifs at e with h1 h2
  · cases e
    have hnil : l = [] := List.length_eq_zero_iff.1 (by omega)
    subst hnil
    refine Pool.pristine_congr ?_ fun t ht => hslab t ?_
    · rw [Pool.container_park]
      split_ifs with ej
      · rw [ej]
        rfl
      · rfl
    · rintro rfl
      exact hi.settled.current j t _ ht hs rfl
  · obtain ⟨b2, eb, -, -⟩ := retire_spec (hi.toCore.setFree hs hpush.nodup hpush.blocks)
      (show (h.pool.setFree k s (b :: l)).slab s = some ⟨k, b :: l⟩ by
        rw [Pool.slab_setFree, if_pos rfl]) (hi.settled.apart k s)
    rw [eb.retire] at e
    cases e
    have hslab' : ∀ t, t ≠ s → (((h.pool.setFree k s (b :: l)).detach k s).drop s).slab t =
        h.pool.slab t := fun t ht => by
      rw [Pool.slab_drop, if_neg ht, Pool.slab_detach, hslab t ht]
    have hcont : (((h.pool.setFree k s (b :: l)).detach k s).drop s).container j =
        if j = k then (if (h.pool.container k).current = some s
          then ⟨(h.pool.container k).partials.head?, (h.pool.container k).partials.tail⟩
          else ⟨(h.pool.container k).current, (h.pool.container k).partials.erase s⟩)
        else h.pool.container j := Pool.container_detach _ k s j
    by_cases hj : j = k
    · subst hj
      rw [if_pos rfl] at hcont
      by_cases hc : (h.pool.container j).current = some s
      · rw [if_pos hc] at hcont
        refine iff_of_false ?_ (hbefore hc)
        exact hi.settled.not_pristine_advance (hi.settled.apart j s hc) hslab' (by rw [hcont])
      · rw [if_neg hc] at hcont
        exact Pool.pristine_congr (by rw [hcont]) fun t ht => hslab' t fun e => hc (e ▸ ht)
    · rw [if_neg hj] at hcont
      exact hi.toCore.pristine_of_ne hs hj (fun t ht _ => hslab' t ht) hcont
  · cases e
    by_cases hj : j = k
    · subst hj
      by_cases hc : (h.pool.container j).current = some s
      · refine iff_of_false ?_ (hbefore hc)
        have hs' : (h.pool.setFree j s (b :: l)).slab s = some ⟨j, b :: l⟩ := by
          rw [Pool.slab_setFree, if_pos rfl]
        rw [Pool.pristine_iff (P := h.pool.setFree j s (b :: l)) hc hs', List.length_cons]
        exact h2
      · exact Pool.pristine_congr rfl fun t ht => hslab t fun e => hc (e ▸ ht)
    · exact hi.toCore.pristine_of_ne hs hj (fun t ht _ => hslab t ht) rfl

/-- With no block in use, the slabs that are left are pristine. -/
lemma Inv.slabChunks_eq_empty_iff (hi : Inv base h pages) (hlive : h.pool.live = ∅) :
    h.slabChunks = ∅ ↔ ∀ k, 6 ≤ k → k ≤ 11 → ¬ h.pool.Pristine k := by
  constructor
  · rintro hnil k - - ⟨s, l, -, hs, -⟩
    obtain ⟨p, -, hm, -⟩ := hi.toCore.chunk hs
    rw [hnil] at hm
    exact hm
  · intro hno
    refine Set.eq_empty_iff_forall_notMem.2 fun c hc => ?_
    obtain ⟨-, ⟨k, l⟩, hs⟩ := hc
    have hw := hi.layout.slabs _ _ hs
    have h6 : 6 ≤ k := hw.order_ge
    have h11 : k ≤ 11 := hw.order_le
    -- all blocks are free, hence the slab is neither partial nor full
    have hall : ∀ b ∈ blocks (h.buddy.pageToVirt c.start) k, b ∈ l := by
      intro b hb
      by_contra hf
      have hmem : (⟨b, k⟩ : Block) ∈ h.pool.live := ⟨_, _, hs, rfl, hb, hf⟩
      rw [hlive] at hmem
      exact hmem
    have hlen := (List.subperm_of_subset (nodup_blocks _ _) hall).length_le
    have hle := hw.length_free
    have hge := two_pow_sub_ge h11
    rw [length_blocks] at hlen
    simp only [] at hle
    by_cases hcur : (h.pool.container k).current = some (h.buddy.pageToVirt c.start)
    · exact hno k h6 h11 ⟨_, l, hcur, hs, by omega⟩
    · by_cases hp : h.buddy.pageToVirt c.start ∈ (h.pool.container k).partials
      · have := (hi.settled.partials k _ hp _ hs).2
        simp only [] at this
        omega
      · have hnil : l = [] := hi.settled.others _ _ hs hcur hp
        rw [hnil, List.length_nil] at hlen
        omega

end Heap

end KingdoKernel.Slab
