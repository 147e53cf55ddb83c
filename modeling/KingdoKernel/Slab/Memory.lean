import KingdoKernel.Slab.Pool

/-!
# Pools in memory

`PoolAt m base P` says that the bytes of `m` represent the pool `P`, the containers being at `base`:
the word `current` of every container, the ring of its partial list and the header and the chain of
free blocks of every slab. `PoolAt.congr` says which bytes that depends on. The other lemmas follow
the changes of a pool: each of them is a few stores of the source, and they touch only bytes that the
pool owns before or after.
-/

namespace KingdoKernel.Slab
open ListHead

/-- `slab_container(k)`, for containers at `base`. -/
def containerAt (base k : ℕ) : ℕ := base + 32 * (k - minSlabBlockOrder)

/-- Where a `struct list_head` of the allocator can lie: in a container, or in a slab header. -/
def nodes (base : ℕ) : Set ℕ :=
  {a | a < 2 ^ 64 ∧ ((∃ k, 6 ≤ k ∧ k ≤ 11 ∧ a = containerAt base k + 8) ∨
    (base + 192 ≤ a ∧ a % 2 ^ 17 = 16))}

/-- The containers lie in `slab_pool_g`. -/
lemma containerAt_bounds (base : ℕ) {k : ℕ} (h6 : 6 ≤ k) (h11 : k ≤ 11) :
    base ≤ containerAt base k ∧ containerAt base k + 32 ≤ base + 192 := by
  simp only [containerAt, minSlabBlockOrder]
  omega

/-- The containers do not overlap. -/
lemma containerAt_apart (base : ℕ) {j k : ℕ} (hj : 6 ≤ j) (hk : 6 ≤ k) (hne : j ≠ k) :
    containerAt base j + 32 ≤ containerAt base k ∨ containerAt base k + 32 ≤ containerAt base j := by
  simp only [containerAt, minSlabBlockOrder]
  omega

/-- Different nodes do not overlap. -/
lemma nodes_apart {base a b : ℕ} (ha : a ∈ nodes base) (hb : b ∈ nodes base) (hne : a ≠ b) :
    a + 16 ≤ b ∨ b + 16 ≤ a := by
  obtain ⟨-, ha⟩ := ha
  obtain ⟨-, hb⟩ := hb
  rcases ha with ⟨j, hj, hj', rfl⟩ | ⟨ha, ha'⟩ <;> rcases hb with ⟨k, hk, hk', rfl⟩ | ⟨hb, hb'⟩
  · have hjk : j ≠ k := fun e => hne (by rw [e])
    have := containerAt_apart base hj hk hjk
    omega
  · have := containerAt_bounds base hj hj'
    omega
  · have := containerAt_bounds base hk hk'
    omega
  · omega

/-- The links of slabs and containers do not overlap. -/
lemma nodes_lawful (base : ℕ) : memLinks.Lawful (nodes base) :=
  memLinks_lawful (fun _ ha => ha.1) fun _ ha _ hb hne => nodes_apart ha hb hne

/-- The header at `s` and its chain represent a slab. -/
structure HeaderAt (m : Mem) (s : ℕ) (σ : Header) : Prop where
  order : m.load s 4 = σ.order
  chain : m.Chain (m.load (s + 8) 8) σ.free
  count : m.load (s + 32) 4 = σ.free.length
  total : m.load (s + 36) 4 = 2 ^ (17 - σ.order)

/-- The bytes that represent a slab, the links of the partial list apart. -/
def Header.Reads (s : ℕ) (σ : Header) (x : ℕ) : Prop :=
  (s ≤ x ∧ x < s + 16) ∨ (s + 32 ≤ x ∧ x < s + 40) ∨ ∃ b ∈ σ.free, b ≤ x ∧ x < b + 8

/-- A header depends on the bytes it reads only. -/
lemma HeaderAt.congr {m m' : Mem} {s : ℕ} {σ : Header} (h : HeaderAt m s σ)
    (hm : ∀ x, σ.Reads s x → m' x = m x) : HeaderAt m' s σ := by
  refine ⟨?_, ?_, ?_, ?_⟩
  · rw [Mem.load_congr fun x h1 h2 => hm x (.inl ⟨by omega, by omega⟩), h.order]
  · rw [Mem.load_congr fun x h1 h2 => hm x (.inl ⟨by omega, by omega⟩)]
    exact h.chain.congr fun b hb =>
      Mem.load_congr fun x h1 h2 => hm x (.inr (.inr ⟨b, hb, h1, h2⟩))
  · rw [Mem.load_congr fun x h1 h2 => hm x (.inr (.inl ⟨by omega, by omega⟩)), h.count]
  · rw [Mem.load_congr fun x h1 h2 => hm x (.inr (.inl ⟨by omega, by omega⟩)), h.total]

section

variable {base k s : ℕ} {σ : Header}

/-- A block has at least 64 bytes. -/
lemma two_pow_order_ge (h : 6 ≤ k) : 64 ≤ 2 ^ k :=
  Nat.pow_le_pow_right (n := 2) (i := 6) (by norm_num) h

/-- The bytes that represent a slab are in the slab. -/
lemma Header.WF.reads_bounds (h : σ.WF base s) {x : ℕ} (hx : σ.Reads s x) :
    s ≤ x ∧ x < s + 2 ^ 17 := by
  have hge := two_pow_order_ge h.order_ge
  rcases hx with hx | hx | ⟨b, hb, hx⟩
  · omega
  · omega
  · have := h.bounds (h.blocks b hb)
    omega

/-- Links are no part of the bytes that represent a slab. -/
lemma Header.WF.not_reads_node (h : σ.WF base s) {n x : ℕ} (hn : n ∈ nodes base) (h1 : n ≤ x)
    (h2 : x < n + 16) : ¬ σ.Reads s x := by
  intro hx
  have hge := two_pow_order_ge h.order_ge
  have hab := h.above
  have hal := h.aligned
  have hin := h.reads_bounds hx
  rcases hn.2 with ⟨k, h6, h11, rfl⟩ | ⟨hn1, hn2⟩
  · have := containerAt_bounds base h6 h11
    omega
  · rcases hx with hx | hx | ⟨b, hb, hx⟩
    · omega
    · omega
    · have := h.bounds (h.blocks b hb)
      omega

/-- The node in the header of a slab. -/
lemma Header.WF.node_mem (h : σ.WF base s) : s + 16 ∈ nodes base := by
  have h1 := h.above
  have h2 := h.below
  have h3 := h.aligned
  exact ⟨by omega, .inr ⟨by omega, by omega⟩⟩

end

/-- The memory represents the pool. -/
structure PoolAt (m : Mem) (base : ℕ) (P : Pool) : Prop where
  current : ∀ k, 6 ≤ k → k ≤ 11 → m.load (containerAt base k) 8 = (P.container k).current.getD 0
  ring : ∀ k, 6 ≤ k → k ≤ 11 → memLinks.Ring (nodes base) m (containerAt base k + 8)
    ((P.container k).partials.map (· + 16))
  header : ∀ s σ, P.slab s = some σ → HeaderAt m s σ

/-- A ring whose links are not overwritten. -/
lemma ring_congr {N : Set ℕ} {m m' : Mem} {hd : ℕ} {xs : List ℕ} (h : memLinks.Ring N m hd xs)
    (hm : ∀ n ∈ hd :: xs, ∀ x, n ≤ x → x < n + 16 → m' x = m x) : memLinks.Ring N m' hd xs := by
  refine h.frame (fun n hn => ?_) (fun n hn => ?_)
  · exact Mem.load_congr fun x h1 h2 => hm n hn x (by omega) (by omega)
  · exact Mem.load_congr fun x h1 h2 => hm n hn x (by omega) (by omega)

namespace PoolAt

variable {m m' : Mem} {base k s b : ℕ} {P : Pool}

/-- The nodes of a partial list. -/
lemma node_cases (hl : P.Layout base) {j n : ℕ}
    (hn : n ∈ (containerAt base j + 8) :: ((P.container j).partials.map (· + 16))) :
    n = containerAt base j + 8 ∨ ∃ t τ, n = t + 16 ∧ P.slab t = some τ ∧ τ.order = j := by
  rcases List.mem_cons.1 hn with rfl | hn
  · exact .inl rfl
  · obtain ⟨t, ht, rfl⟩ := List.mem_map.1 hn
    obtain ⟨τ, hτ, ho⟩ := hl.partials j t ht
    exact .inr ⟨t, τ, rfl, hτ, ho⟩

/-- Representing a pool depends on the bytes of the allocator only. -/
lemma congr (h : PoolAt m base P) (hl : P.Layout base) (hm : ∀ x, P.Owns base x → m' x = m x) :
    PoolAt m' base P := by
  refine ⟨?_, ?_, ?_⟩
  · intro j h6 h11
    have hb := containerAt_bounds base h6 h11
    rw [Mem.load_congr fun x h1 h2 => hm x (.inl ⟨by omega, by omega⟩), h.current j h6 h11]
  · intro j h6 h11
    have hb := containerAt_bounds base h6 h11
    refine ring_congr (h.ring j h6 h11) fun n hn x h1 h2 => hm x ?_
    rcases node_cases hl hn with rfl | ⟨t, τ, rfl, hτ, -⟩
    · exact .inl ⟨by omega, by omega⟩
    · have hge := two_pow_order_ge (hl.slabs t τ hτ).order_ge
      exact .inr ⟨t, τ, hτ, .inl ⟨by omega, by omega⟩⟩
  · intro t τ ht
    have hge := two_pow_order_ge (hl.slabs t τ ht).order_ge
    refine (h.header t τ ht).congr fun x hx => hm x (.inr ⟨t, τ, ht, ?_⟩)
    rcases hx with hx | hx | ⟨b, hb, hx⟩
    · exact .inl ⟨by omega, by omega⟩
    · exact .inl ⟨by omega, by omega⟩
    · exact .inr ⟨b, hb, by omega, by omega⟩

/-- Changing the counter, the chain and the free blocks of one slab. -/
lemma setFree (h : PoolAt m base P) (hl : P.Layout base) {l l' : List ℕ}
    (hs : P.slab s = some ⟨k, l⟩) (hh : HeaderAt m' s ⟨k, l'⟩)
    (hm : ∀ x, (x < s + 8 ∨ s + 2 ^ 17 ≤ x ∨ (s + 16 ≤ x ∧ x < s + 32)) → m' x = m x) :
    PoolAt m' base (P.setFree k s l') := by
  have hw := hl.slabs s _ hs
  have hab := hw.above
  refine ⟨?_, ?_, ?_⟩
  · intro j h6 h11
    have hb := containerAt_bounds base h6 h11
    rw [Mem.load_congr fun x h1 h2 => hm x (.inl (by omega))]
    exact h.current j h6 h11
  · intro j h6 h11
    have hb := containerAt_bounds base h6 h11
    refine ring_congr (h.ring j h6 h11) fun n hn x h1 h2 => hm x ?_
    rcases node_cases hl hn with rfl | ⟨t, τ, rfl, hτ, -⟩
    · omega
    · by_cases e : t = s
      · omega
      · have := apart_of_aligned (hl.slabs t τ hτ).aligned hw.aligned e
        omega
  · intro t τ ht
    rw [Pool.slab_setFree] at ht
    split_ifs at ht with e
    · cases ht
      exact e ▸ hh
    · refine (h.header t τ ht).congr fun x hx => hm x ?_
      have hin := (hl.slabs t τ ht).reads_bounds hx
      have := apart_of_aligned (hl.slabs t τ ht).aligned hw.aligned e
      omega

/-- A container changes its current slab. -/
lemma setCurrent (h : PoolAt m base P) (hl : P.Layout base) (h6 : 6 ≤ k) (h11 : k ≤ 11)
    {c : Option ℕ} (hc : c.getD 0 < 2 ^ 64) :
    PoolAt (m.store (containerAt base k) 8 (c.getD 0)) base
      (P.setContainer k ⟨c, (P.container k).partials⟩) := by
  have hk := containerAt_bounds base h6 h11
  have hring : ∀ j, ((P.setContainer k ⟨c, (P.container k).partials⟩).container j).partials =
      (P.container j).partials := by
    intro j
    rw [Pool.container_setContainer]
    split_ifs with e
    · rw [e]
    · rfl
  refine ⟨?_, ?_, ?_⟩
  · intro j hj6 hj11
    rw [Pool.container_setContainer]
    split_ifs with e
    · rw [e]
      exact Mem.load_store_of_lt (by simpa using hc)
    · have := containerAt_apart base hj6 h6 e
      rw [Mem.load_store_of_disjoint (by omega)]
      exact h.current j hj6 hj11
  · intro j hj6 hj11
    have hj := containerAt_bounds base hj6 hj11
    rw [hring]
    refine ring_congr (h.ring j hj6 hj11) fun n hn x h1 h2 => Mem.store_of_not_mem ?_
    rcases node_cases hl hn with rfl | ⟨t, τ, rfl, hτ, -⟩
    · by_cases e : j = k
      · subst e
        omega
      · have := containerAt_apart base hj6 h6 e
        omega
    · have := (hl.slabs t τ hτ).above
      omega
  · intro t τ ht
    refine (h.header t τ ht).congr fun x hx => Mem.store_of_not_mem ?_
    have := (hl.slabs t τ ht).reads_bounds hx
    have := (hl.slabs t τ ht).above
    omega

/-- The partial lists of two orders have no node in common. -/
lemma rings_disjoint (hl : P.Layout base) {j : ℕ} (h6 : 6 ≤ k) (h11 : k ≤ 11) (hj6 : 6 ≤ j)
    (hj11 : j ≤ 11) (hne : j ≠ k) :
    ∀ x ∈ (containerAt base j + 8) :: ((P.container j).partials.map (· + 16)),
      x ∉ (containerAt base k + 8) :: ((P.container k).partials.map (· + 16)) := by
  intro x hx hx'
  have hj := containerAt_bounds base hj6 hj11
  have hk := containerAt_bounds base h6 h11
  have hjk := containerAt_apart base hj6 h6 hne
  rcases node_cases hl hx with rfl | ⟨t, τ, rfl, hτ, rfl⟩ <;>
    rcases node_cases hl hx' with e | ⟨u, υ, e, hυ, rfl⟩
  · omega
  · have := (hl.slabs u υ hυ).above
    omega
  · have := (hl.slabs t τ hτ).above
    omega
  · have htu : t = u := by omega
    rw [htu, hυ] at hτ
    cases hτ
    exact hne rfl

/-- The links of a partial list belong to the allocator. -/
lemma owns_node (hl : P.Layout base) (h6 : 6 ≤ k) (h11 : k ≤ 11) {n x : ℕ}
    (hn : n ∈ (containerAt base k + 8) :: ((P.container k).partials.map (· + 16)))
    (hx : ¬ P.Owns base x) : ¬ (n ≤ x ∧ x < n + 16) := by
  rintro ⟨h1, h2⟩
  apply hx
  have hk := containerAt_bounds base h6 h11
  rcases node_cases hl hn with rfl | ⟨t, τ, rfl, hτ, -⟩
  · exact .inl ⟨by omega, by omega⟩
  · have hge := two_pow_order_ge (hl.slabs t τ hτ).order_ge
    exact .inr ⟨t, τ, hτ, .inl ⟨by omega, by omega⟩⟩

/-- An edit of the partial list of order `k` that writes to links only. -/
lemma relink (h : PoolAt m base P) (hl : P.Layout base) {ps : List ℕ}
    (hm : ∀ x, (∀ n ∈ nodes base, ¬ (n ≤ x ∧ x < n + 16)) → m' x = m x)
    (hk : memLinks.Ring (nodes base) m' (containerAt base k + 8) (ps.map (· + 16)))
    (hj : ∀ j, 6 ≤ j → j ≤ 11 → j ≠ k → memLinks.Ring (nodes base) m' (containerAt base j + 8)
      ((P.container j).partials.map (· + 16))) :
    PoolAt m' base (P.setContainer k ⟨(P.container k).current, ps⟩) := by
  refine ⟨?_, ?_, ?_⟩
  · intro j h6 h11
    have hcur : ((P.setContainer k ⟨(P.container k).current, ps⟩).container j).current =
        (P.container j).current := by
      rw [Pool.container_setContainer]
      split_ifs with e
      · rw [e]
      · rfl
    rw [hcur, ← h.current j h6 h11]
    -- a word `current` is no part of a node
    refine Mem.load_congr fun x h1 h2 => hm x fun n hn hx => ?_
    have hb := containerAt_bounds base h6 h11
    rcases hn.2 with ⟨i, hi6, hi11, rfl⟩ | ⟨hn1, -⟩
    · by_cases e : i = j
      · subst e
        omega
      · have := containerAt_apart base hi6 h6 e
        omega
    · omega
  · intro j h6 h11
    rw [Pool.container_setContainer]
    split_ifs with e
    · rw [e]
      exact hk
    · exact hj j h6 h11 e
  · intro t τ ht
    refine (h.header t τ ht).congr fun x hx => hm x fun n hn hnx => ?_
    exact (hl.slabs t τ ht).not_reads_node hn hnx.1 hnx.2 hx

/-- A slab is unlinked from the partial list. -/
lemma unlink (h : PoolAt m base P) (hl : P.Layout base) (h6 : 6 ≤ k) (h11 : k ≤ 11) {A B : List ℕ}
    (hp : (P.container k).partials = A ++ s :: B) :
    PoolAt (listDel memLinks m (s + 16)) base
      (P.setContainer k ⟨(P.container k).current, A ++ B⟩) ∧
    ∀ x, ¬ P.Owns base x → listDel memLinks m (s + 16) x = m x := by
  have hr := h.ring k h6 h11
  have hown := fun n hn x hx => owns_node (n := n) (x := x) hl h6 h11 hn hx
  have hdisj := fun j hj6 hj11 hne => rings_disjoint (j := j) hl h6 h11 hj6 hj11 hne
  rw [hp, List.map_append, List.map_cons] at hr hown hdisj
  obtain ⟨hprev, hnext, hne⟩ := hr.neighbours
  have hsep := nodes_apart (hr.nodes _ hprev) (hr.nodes (s + 16) (by simp)) hne
  refine ⟨h.relink hl (fun x hx => ?_) ?_ (fun j hj6 hj11 hne => ?_), fun x hx => ?_⟩
  · have h1 := hx _ (hr.nodes _ hprev)
    have h2 := hx _ (hr.nodes _ hnext)
    exact remove_of_not_mem hsep (by omega) (by omega)
  · rw [List.map_append]
    exact hr.remove (nodes_lawful base)
  · exact hr.frame_remove (nodes_lawful base) (h.ring j hj6 hj11) (hdisj j hj6 hj11 hne)
  · have h1 := hown _ hprev x hx
    have h2 := hown _ hnext x hx
    exact remove_of_not_mem hsep (by omega) (by omega)

/-- A slab is appended to the partial list. -/
lemma append (h : PoolAt m base P) (hl : P.Layout base) (h6 : 6 ≤ k) (h11 : k ≤ 11) {σ : Header}
    (hs : P.slab s = some σ) (ho : σ.order = k) (hp : s ∉ (P.container k).partials) :
    PoolAt (listAppend memLinks m (s + 16) (containerAt base k + 8)) base (P.park k s) ∧
    ∀ x, ¬ P.Owns base x → listAppend memLinks m (s + 16) (containerAt base k + 8) x = m x := by
  have hw := hl.slabs s σ hs
  have hr := h.ring k h6 h11
  have hk := containerAt_bounds base h6 h11
  -- the last node of the ring
  obtain ⟨A, a, hAa⟩ : ∃ A a, (containerAt base k + 8) :: ((P.container k).partials.map (· + 16)) =
      A ++ a :: [] := by
    rcases List.eq_nil_or_concat ((containerAt base k + 8) :: ((P.container k).partials.map (· + 16)))
      with e | ⟨D, a, e⟩
    · exact absurd e (by simp)
    · exact ⟨D, a, by simpa using e⟩
  obtain ⟨c, C, hcC, hnext, hprev, -, -, -⟩ := hr.cut hAa
  have hc : c = containerAt base k + 8 := by
    simpa using (List.cons.inj hcC).1.symm
  subst hc
  have ha : a ∈ (containerAt base k + 8) :: ((P.container k).partials.map (· + 16)) := by
    rw [hAa]
    simp
  -- the new node is in no ring
  have hnew : ∀ j, 6 ≤ j → j ≤ 11 →
      s + 16 ∉ (containerAt base j + 8) :: ((P.container j).partials.map (· + 16)) := by
    intro j hj6 hj11 hn
    have hj := containerAt_bounds base hj6 hj11
    have hab := hw.above
    rcases List.mem_cons.1 hn with e | hn
    · omega
    · obtain ⟨t, ht, e⟩ := List.mem_map.1 hn
      have hts : t = s := by omega
      subst hts
      by_cases hjk : j = k
      · exact hp (hjk ▸ ht)
      · exact (hl.not_referred hs (ho ▸ hjk)).2 ht
  have hsep := nodes_apart (hr.nodes a ha) hw.node_mem fun e => hnew k h6 h11 (e ▸ ha)
  have hlist : listAppend memLinks m (s + 16) (containerAt base k + 8) =
      memLinks.insertAfter m (s + 16) a := by
    rw [listAppend, hprev]
    rfl
  have hmem := List.mem_cons_self (a := containerAt base k + 8)
    (l := (P.container k).partials.map (· + 16))
  rw [hlist]
  refine ⟨h.relink hl (fun x hx => ?_) ?_ (fun j hj6 hj11 hne => ?_), fun x hx => ?_⟩
  · have h1 := hx _ hw.node_mem
    have h2 := hx _ (hr.nodes a ha)
    have h3 := hx _ (hr.nodes _ hmem)
    refine insertAfter_of_not_mem hsep (by omega) (by omega) ?_
    rw [hnext]
    omega
  · refine hr.insertAfter (nodes_lawful base) hAa (hnew k h6 h11) hw.node_mem ?_
    rw [List.map_append, ← List.cons_append, hAa]
    simp
  · exact hr.frame_insertAfter (nodes_lawful base) (h.ring j hj6 hj11) ha (hnew k h6 h11) hw.node_mem
      (rings_disjoint hl h6 h11 hj6 hj11 hne) (hnew j hj6 hj11)
  · have h1 := owns_node hl h6 h11 ha hx
    have h2 := owns_node hl h6 h11 hmem hx
    have h3 : ¬ (s + 16 ≤ x ∧ x < s + 16 + 16) := by
      intro hxs
      have hge := two_pow_order_ge hw.order_ge
      exact hx (.inr ⟨s, σ, hs, .inl ⟨by omega, by omega⟩⟩)
    refine insertAfter_of_not_mem hsep (by omega) (by omega) ?_
    rw [hnext]
    omega

/-- A slab disappears. -/
lemma drop (h : PoolAt m base P) : PoolAt m base (P.drop s) := by
  refine ⟨h.current, h.ring, fun t τ ht => ?_⟩
  rw [Pool.slab_drop] at ht
  split_ifs at ht
  exact h.header t τ ht

/-- A new slab is formatted in memory of its own and becomes current. -/
lemma add (h : PoolAt m base P) (hl : P.Layout base) (h6 : 6 ≤ k) (h11 : k ≤ 11)
    (hs : P.slab s = none) (hw : Header.WF base s ⟨k, blocks s k⟩)
    (hh : HeaderAt m' s ⟨k, blocks s k⟩) (hc : m'.load (containerAt base k) 8 = s)
    (hm : ∀ x, (x < s ∨ s + 2 ^ 17 ≤ x) →
      (x < containerAt base k ∨ containerAt base k + 8 ≤ x) → m' x = m x) :
    PoolAt m' base (P.add k s) := by
  have hk := containerAt_bounds base h6 h11
  have hab := hw.above
  have hne : ∀ {t τ}, P.slab t = some τ → t ≠ s := by
    rintro t τ ht rfl
    rw [hs] at ht
    cases ht
  refine ⟨?_, ?_, ?_⟩
  · intro j hj6 hj11
    rw [Pool.container_add]
    split_ifs with e
    · rw [e]
      exact hc
    · have hj := containerAt_bounds base hj6 hj11
      have := containerAt_apart base hj6 h6 e
      rw [← h.current j hj6 hj11]
      exact Mem.load_congr fun x h1 h2 => hm x (by omega) (by omega)
  · intro j hj6 hj11
    have hj := containerAt_bounds base hj6 hj11
    have hpart : ((P.add k s).container j).partials = (P.container j).partials := by
      rw [Pool.container_add]
      split_ifs with e
      · rw [e]
      · rfl
    rw [hpart]
    refine ring_congr (h.ring j hj6 hj11) fun n hn x h1 h2 => ?_
    rcases node_cases hl hn with rfl | ⟨t, τ, rfl, hτ, -⟩
    · by_cases e : j = k
      · subst e
        exact hm x (by omega) (by omega)
      · have := containerAt_apart base hj6 h6 e
        exact hm x (by omega) (by omega)
    · have hwt := hl.slabs t τ hτ
      have := apart_of_aligned hwt.aligned hw.aligned (hne hτ)
      have := hwt.above
      exact hm x (by omega) (by omega)
  · intro t τ ht
    rw [Pool.slab_add] at ht
    split_ifs at ht with e
    · cases ht
      exact e ▸ hh
    · refine (h.header t τ ht).congr fun x hx => ?_
      have hwt := hl.slabs t τ ht
      have hin := hwt.reads_bounds hx
      have := apart_of_aligned hwt.aligned hw.aligned e
      have := hwt.above
      exact hm x (by omega) (by omega)

end PoolAt

end KingdoKernel.Slab
