import KingdoKernel.Buddy.Run

/-!
# Last allocated, first freed

`buddy_free_pages` undoes the `buddy_get_pages` before it, list by list and position by position: this
is `Settled.push_pop` for the lists of the allocator, whose hypothesis is the invariant of runs
(`Inv.settled`). `Nested` are the sequences of calls in which every chunk is freed before the ones that
were allocated earlier; by induction over them a whole sequence restores the lists (`Nested.restores`).

Since calls look at the lists and at the outstanding chunks only (`machine_alike`), the state after
such a sequence answers every further sequence of calls as the state before it would have
(`last_first_restores`).
-/

namespace KingdoKernel.Buddy
open Tiles Tiles.Block

/-- The invariant as a property of the lists. -/
lemma Inv.settled {s : Buddy} {H : Set Block} {A : Set ℕ} (h : Inv s H A) :
    Lists.Settled s.base 10 s.lists := by
  have hmem : ∀ {k c}, k ≤ 10 → c ∈ s.lists k → (⟨c, k⟩ : Block) ∈ s.freeBlocks :=
    fun hk hc => ⟨Nat.lt_succ_of_le hk, hc⟩
  refine ⟨?_, ?_, ?_⟩
  · exact fun k hk c hc => h.tiling.aligned _ (.inl (hmem hk hc))
  · exact fun k hk => h.nodup k (Nat.lt_succ_of_le hk)
  · intro k hk b hb c hc hs
    have e := h.noBuddies _ (hmem hk.le hb) _ (hmem hk.le hc) rfl hk hs
    injection e

/-- Lists and counters agree when the lists do. -/
lemma Inv.freeLists_eq {s s' : Buddy} {H H' : Set Block} {A A' : Set ℕ} (h : Inv s H A)
    (h' : Inv s' H' A') (e : s'.lists = s.lists) {k : ℕ} (hk : k ≤ 10) :
    s'.freeLists k = s.freeLists k := by
  have hk' : k < buddyMaxOrder := Nat.lt_succ_of_le hk
  have hl : (s'.freeLists k).freeList = (s.freeLists k).freeList := congrFun e k
  have hn : (s'.freeLists k).nrFree = (s.freeLists k).nrFree := by
    rw [h'.count k hk', h.count k hk', hl]
  cases e1 : s'.freeLists k
  cases e2 : s.freeLists k
  rw [e1, e2] at hl hn
  cases hl
  cases hn
  rfl

/-- Giving back the chunk that was taken last restores the lists. -/
lemma Good.push_pop {r : Buddy} {s : Sys} (h : Good r s) {k p : ℕ} {L : Lists} (hk : k ≤ 10)
    (e : s.buddy.lists.pop (buddyMaxOrder - k) k = some (p, L)) :
    Lists.push s.buddy.base L (buddyMaxOrder - 1 - k) p k = s.buddy.lists := by
  have hn : buddyMaxOrder - k = buddyMaxOrder - 1 - k + 1 := by
    simp only [buddyMaxOrder]
    omega
  rw [hn] at e
  exact h.inv.settled.push_pop (by simp only [buddyMaxOrder]; omega) e

/-! ## Well-nested sequences -/

/-- Sequences of calls, with the values they return, in which a chunk is freed before all that were
allocated earlier. A call that returns `NULL` allocates nothing and has no counterpart. -/
inductive Nested : List Op → List (Option ℕ) → Prop where
  | nil :
    Nested [] []
  | failed {k ops os} :
    Nested ops os →
    Nested (.getPages k :: ops) (none :: os)
  | pair {k p ops os ops' os'} :
    Nested ops os →
    Nested ops' os' →
    Nested (.getPages k :: (ops ++ .freePages p :: ops')) (some p :: (os ++ none :: os'))

/-- Every call of a nested sequence has its result. -/
lemma Nested.length_eq {ops os} (h : Nested ops os) : ops.length = os.length := by
  induction h with
  | nil => rfl
  | failed _ ih => simp [ih]
  | pair _ _ ih ih' => simp [ih, ih']

/-- A well-nested sequence restores the lists and the outstanding chunks. -/
lemma Nested.restores {r : Buddy} {ops os} (hn : Nested ops os) {s s' : Sys} (h : Good r s)
    (hr : machine.Run s ops os s') :
    s'.buddy.lists = s.buddy.lists ∧ s'.out = s.out := by
  induction hn generalizing s s' with
  | nil =>
    cases hr
    exact ⟨rfl, rfl⟩
  | failed _ ih =>
    cases hr with
    | cons hen hex hr =>
      rcases h.getPages hen with ⟨e, -⟩ | ⟨p, t, e, -, -⟩
      · rw [hex] at e
        cases e
        exact ih h hr
      · rw [hex] at e
        cases e
  | @pair k p ops os ops' os' hn₁ _ ih₁ ih₂ =>
    cases hr with
    | cons hen hex hr =>
      rcases h.getPages hen with ⟨e, -⟩ | ⟨q, t, e, hg, hpop⟩
      · rw [hex] at e
        cases e
      rw [hex] at e
      cases e
      obtain ⟨s₂, r₁, hr⟩ := hr.of_append hn₁.length_eq
      obtain ⟨hL, hout⟩ := ih₁ hg r₁
      have hg₂ := (machine_sound r).run r₁ hg
      cases hr with
      | cons _ hex₂ r₂ =>
        -- the chunk is still the last one outstanding, with the order it was allocated with
        have hmem : (⟨p, k⟩ : Block) ∈ s₂.out := by
          rw [hout]
          exact List.mem_cons_self
        obtain ⟨u, e, hg₃, hpush⟩ := hg₂.freePages hmem
        have e' := hex₂.symm.trans e
        cases e'
        have hbase : s₂.buddy.base = s.buddy.base := by
          rw [hg₂.bounds.base, h.bounds.base]
        have hback : u.lists = s.buddy.lists := by
          rw [hpush, hL, hbase]
          exact h.push_pop hen hpop
        obtain ⟨hL', hout'⟩ := ih₂ hg₃ r₂
        refine ⟨hL'.trans hback, hout'.trans ?_⟩
        have hne : ∀ c ∈ s.out, c.start ≠ p := by
          intro c hc e
          have hp := hg.distinct
          have hc' : c = ⟨p, k⟩ := hg.inv.eq_of_start
            (.inr (List.mem_cons_of_mem _ hc)) (.inr List.mem_cons_self) e
          exact (List.nodup_cons.1 hp).1 (hc' ▸ hc)
        show s₂.out.filter (fun c => c.start ≠ p) = s.out
        rw [hout, List.filter_cons_of_neg (by simp)]
        exact List.filter_eq_self.2 fun c hc => decide_eq_true (hne c hc)

/-! ## States that answer alike -/

/-- States of runs over one region with the same lists and the same outstanding chunks. -/
structure Alike (r : Buddy) (s s' : Sys) : Prop where
  good : Good r s
  good' : Good r s'
  lists : s'.buddy.lists = s.buddy.lists
  out : s'.out = s.out

/-- Calls return the same from such states, and lead to such states. -/
lemma machine_alike (r : Buddy) : machine.Simulates machine (Alike r) := by
  intro s s' op h hen
  cases op with
  | getPages k =>
    have hk : k < buddyMaxOrder := Nat.lt_succ_of_le hen
    rcases h.good.getPages hen with ⟨e, hex⟩ | ⟨p, t, e, hg, hpop⟩ <;>
      rcases h.good'.getPages hen with ⟨e', hex'⟩ | ⟨p', t', e', hg', hpop'⟩
    · exact ⟨none, s, s', e, hen, e', h⟩
    · rw [h.lists, hex.pop (by omega)] at hpop'
      cases hpop'
    · rw [← h.lists, hex'.pop (by omega)] at hpop
      cases hpop
    · rw [h.lists, hpop] at hpop'
      injection hpop' with hpop'
      injection hpop' with hp hL
      subst hp
      exact ⟨some p, _, _, e, hen, e', hg, hg', hL.symm, by rw [h.out]⟩
  | freePages p =>
    obtain ⟨b, hb, rfl⟩ := hen
    have hb' : b ∈ s'.out := by
      rw [h.out]
      exact hb
    obtain ⟨t, e, hg, hL⟩ := h.good.freePages hb
    obtain ⟨t', e', hg', hL'⟩ := h.good'.freePages hb'
    have hbase : s'.buddy.base = s.buddy.base := by
      rw [h.good'.bounds.base, h.good.bounds.base]
    refine ⟨none, _, _, e, ⟨b, hb', rfl⟩, e', hg, hg', ?_, by rw [h.out]⟩
    show t'.lists = t.lists
    rw [hL', hL, h.lists, hbase]

/-- What freeing in the opposite order of allocating does from a state. -/
structure LastFirst (s : Sys) : Prop where
  /-- freeing the chunk that was just allocated restores every list, in order, and every counter -/
  once : ∀ k ≤ 10, ∀ p t, s.buddy.buddyGetPages k = .ok (some p, t) →
    ∃ u, t.buddyFreePages p = .ok u ∧ ∀ j ≤ 10, u.freeLists j = s.buddy.freeLists j
  /-- so does a well-nested sequence of calls -/
  nested : ∀ ops os s', Nested ops os → machine.Run s ops os s' →
    s'.out = s.out ∧ ∀ j ≤ 10, s'.buddy.freeLists j = s.buddy.freeLists j
  /-- and making the calls of such a sequence again returns the same pages -/
  again : ∀ ops os s', Nested ops os → machine.Run s ops os s' → ∃ s'', machine.Run s' ops os s''
  /-- as any calls after it return what they would have returned before it -/
  replay : ∀ ops os s', Nested ops os → machine.Run s ops os s' →
    ∀ ops' os' t, machine.Run s ops' os' t → ∃ t', machine.Run s' ops' os' t' ∧
      ∀ j ≤ 10, t'.buddy.freeLists j = t.buddy.freeLists j

/-- In a reached state the last chunk taken can be given back. -/
lemma Good.lastFirst {r : Buddy} {s : Sys} (h : Good r s) : LastFirst s := by
  have halike : ∀ {ops os s'}, Nested ops os → machine.Run s ops os s' → Alike r s s' := by
    intro ops os s' hn hr
    obtain ⟨hL, hout⟩ := hn.restores h hr
    exact ⟨h, (machine_sound r).run hr h, hL, hout⟩
  refine ⟨?_, ?_, ?_, ?_⟩
  · intro k hk p t e
    have hk' : k < buddyMaxOrder := Nat.lt_succ_of_le hk
    rcases buddyGetPages_pop hk' h.inv with ⟨e', -⟩ | ⟨q, t', e', hf, hH, hi, hpop⟩
    · rw [e] at e'
      cases e'
    · rw [e] at e'
      cases e'
      obtain ⟨u, eu, -, hiu, hL⟩ := buddyFreePages_push hi hH
      refine ⟨u, eu, fun j hj => h.inv.freeLists_eq hiu ?_ hj⟩
      rw [hL, hf.base]
      exact h.push_pop hk hpop
  · intro ops os s' hn hr
    have ha := halike hn hr
    exact ⟨ha.out, fun j hj => ha.good.inv.freeLists_eq ha.good'.inv ha.lists hj⟩
  · intro ops os s' hn hr
    obtain ⟨s'', hr', -⟩ := (machine_alike r).run hr (halike hn hr)
    exact ⟨s'', hr'⟩
  · intro ops os s' hn hr ops' os' t hr'
    obtain ⟨t', ht', ha⟩ := (machine_alike r).run hr' (halike hn hr)
    exact ⟨t', ht', fun j hj => ha.good.inv.freeLists_eq ha.good'.inv ha.lists hj⟩

/-- In every reached state, freeing in the opposite order of allocating restores the free lists
exactly, and the calls made so return the same pages when they are made again. -/
theorem last_first_restores {imgEnd : ℕ} (h : HasAlignedPage (initRegion imgEnd)) :
    ∃ s₀, initBuddy imgEnd = .ok s₀ ∧
      ∀ ops os s, machine.Run ⟨s₀, []⟩ ops os s → LastFirst s := by
  obtain ⟨s₀, e, hg⟩ := initBuddy_good h
  exact ⟨s₀, e, fun ops os s r => ((machine_sound _).run r hg).lastFirst⟩

/-- The state after eight pages have been asked for. -/
theorem last_first_restores_five_mb :
    ∃ s₀ p t, initBuddy (physMemEnd - 0x500000) = .ok s₀ ∧
      machine.Run ⟨s₀, []⟩ [.getPages 3] [some p] ⟨t, [⟨p, 3⟩]⟩ ∧ LastFirst ⟨t, [⟨p, 3⟩]⟩ := by
  obtain ⟨s₀, p, t, e, r⟩ := first_getPages (k := 3) hasAlignedPage_five_mb (by decide)
  obtain ⟨s, e', hr⟩ := last_first_restores hasAlignedPage_five_mb
  rw [e] at e'
  cases e'
  exact ⟨s₀, p, t, e, r, hr _ _ _ r⟩

end KingdoKernel.Buddy
