import KingdoKernel.Sync.Spin

/-!
# Progress of the spin lock

A core in `spin_lock` sleeps at `wfe` until its event register is set, so a release that did not reach it
would leave it there for ever. It does not happen: with the lock free, a core anywhere in the template is in
its critical section after at most nine steps of its own (`spin_lock_acquires`), and every call under way
can be brought to its return by running the holder of the lock and the caller (`spin_lock_completes`).
-/

namespace KingdoKernel.Sync

variable {ι : Type*}

/-- The number of steps to the critical section when nobody interferes. -/
def rank (c : SpinlockT ι) (i : ι) (l : Local .w) : ℕ :=
  match l.pc with
  | 0 => 6
  | 1 => if l.reg 0 = 0 ∧ c.mon i = true then 5 else 9
  | 2 => if c.mon i = true then 4 else 8
  | 3 => if l.reg 0 = 0 then 3 else 7
  | 4 => 2
  | 5 => 8
  | 6 => 7
  | _ => 1

/-- There are at most nine steps to the critical section. -/
lemma rank_le (c : SpinlockT ι) (i : ι) (l : Local .w) : rank c i l ≤ 9 := by
  unfold rank
  split
  all_goals first | omega | (split <;> omega)

variable [DecidableEq ι]

/-- With the lock free, or already written by this core, an undisturbed step comes closer. -/
lemma LockInv.solo {c : SpinlockT ι} {i : ι} {l : Local .w} (h : LockInv c i l)
    (hfree : c.val = 0 ∨ l.Holds) (h7 : l.pc ≠ 7) :
    ∃ c' l', Sync.step spinLock i true c l = some (c', l') ∧ rank c' i l' < rank c i l := by
  obtain ⟨pc, reg, z⟩ := l
  have hpc := h.pc_cases
  obtain ⟨h2, h⟩ := h
  dsimp only at hpc h2 h
  obtain rfl | rfl | rfl | rfl | rfl | rfl | rfl | rfl := hpc
  · have hv : c.val = 0 := hfree.resolve_right (by simp [Local.Holds])
    refine ⟨_, _, rfl, ?_⟩
    simp [rank, Local.set, hv]
  · by_cases e : reg 0 = 0
    · refine ⟨c, ⟨2, reg, z⟩, ?_, ?_⟩
      · rw [step_of_fetch rfl, exec_cbnz_zero 5 e]
        rfl
      · by_cases hm : c.mon i = true
        · simp only [rank, e, hm, and_self, if_true]
          omega
        · simp only [rank, e, hm]
          decide
    · refine ⟨c, ⟨5, reg, z⟩, ?_, ?_⟩
      · rw [step_of_fetch rfl, exec_cbnz_ne 5 e]
        rfl
      · simp only [rank, e, false_and, if_false]
        omega
  · refine ⟨_, _, rfl, ?_⟩
    by_cases hm : c.mon i = true
    · simp [rank, Local.set, hm, (c.storeEx_of_mon hm (reg 2)).1]
    · have e : (c.storeEx i true (reg 2)).1 = true := by simp [Cell.storeEx, hm]
      simp [rank, Local.set, hm, e]
  · by_cases e : reg 0 = 0
    · refine ⟨c, ⟨4, reg, z⟩, ?_, ?_⟩
      · rw [step_of_fetch rfl, exec_cbnz_zero 0 e]
        rfl
      · simp only [rank, e, if_true]
        omega
    · refine ⟨c, ⟨0, reg, z⟩, ?_, ?_⟩
      · rw [step_of_fetch rfl, exec_cbnz_ne 0 e]
        rfl
      · simp only [rank, e, if_false]
        omega
  · exact ⟨_, _, rfl, by simp [rank, Local.goto]⟩
  · -- the lock is free, so the monitor was opened since it was read, and the event is there
    have hv : c.val = 0 := hfree.resolve_right (by simp [Local.Holds])
    have he : c.event i = true := by
      cases h.2 with
      | inl hm => exact absurd hv (h.1 hm)
      | inr he => exact he
    obtain ⟨c', e⟩ := Cell.wfe_of_event he
    refine ⟨c', ⟨6, reg, z⟩, ?_, ?_⟩
    · rw [step_of_fetch rfl, exec_wfe_some e]
      rfl
    · simp [rank]
  · exact ⟨_, _, rfl, by simp [rank, Local.goto]⟩
  · exact absurd rfl h7

namespace Spin

variable {ε σ ω κ ο : Type*} {M : Machine ε σ ω ο} {C : Code ε σ ω κ ο} {P : σ → Prop}
  {apart : ω → ω → Prop} {s : Spin ι σ ω κ ο} {i : ι}

/-- A run in which only core `i` executes, undisturbed, for `n` steps. -/
def Solo (M : Machine ε σ ω ο) (C : Code ε σ ω κ ο) (apart : ω → ω → Prop) (i : ι) (n : ℕ)
    (s : Spin ι σ ω κ ο) (os : List (Option (Event ι ω ο))) (s' : Spin ι σ ω κ ο) : Prop :=
  (machine M C apart).Run s (List.replicate n (.run i true)) os s'

/-- A step before an undisturbed run. -/
lemma Solo.cons {n : ℕ} {s s1 s' : Spin ι σ ω κ ο} {e os} (hi : s.core i ≠ .idle)
    (hex : s.run C i true = .ok (e, s1)) (r : Solo M C apart i n s1 os s') :
    Solo M C apart i (n + 1) s (e :: os) s' :=
  Machine.Run.cons hi hex r

/-- Undisturbed runs one after the other. -/
lemma Solo.trans {n m : ℕ} {s s1 s' : Spin ι σ ω κ ο} {os os'} (r : Solo M C apart i n s os s1)
    (r' : Solo M C apart i m s1 os' s') : Solo M C apart i (n + m) s (os ++ os') s' := by
  rw [Solo, List.replicate_add]
  exact Machine.Run.append r r'

/-- The other cores stay where they are. -/
lemma Solo.core_of_ne {n : ℕ} {s s' : Spin ι σ ω κ ο} {os} (r : Solo M C apart i n s os s') {j : ι}
    (hj : j ≠ i) : s'.core j = s.core j := by
  induction n generalizing s os with
  | zero =>
    cases r
    rfl
  | succ n ih =>
    cases r with
    | @cons _ s1 _ _ _ _ _ _ hex r =>
      rw [ih r]
      have hex : s.run C i true = .ok (_, s1) := hex
      unfold Spin.run at hex
      split at hex
      · cases hex
        rfl
      · split at hex <;> (cases hex; exact Function.update_of_ne hj _ _)
      · split at hex
        · cases hex
        · cases hex
          exact Function.update_of_ne hj _ _
        · cases hex
          exact Function.update_of_ne hj _ _
      · split at hex <;> (cases hex; exact Function.update_of_ne hj _ _)

/-- From anywhere in `spin_lock`, with the lock free, to the critical section. -/
lemma Inv.acquire (hM : M.Sound P) (hC : C.Implements M) (hA : Stable M P apart) (h : Inv M C P apart s)
    {op : ω} {l : Local .w} (hi : s.core i = .locking op l) (hfree : s.lock.val = 0 ∨ l.Holds) :
    ∃ n ≤ rank s.lock i l, ∃ os s', Solo M C apart i n s os s' ∧
      s'.core i = .critical op (C.start op) := by
  induction hr : rank s.lock i l using Nat.strong_induction_on generalizing s l with
  | _ r ih =>
    have hne : s.core i ≠ .idle := by
      rw [hi]
      exact fun e => by cases e
    have hl : LockInv s.lock i l := by
      have := h.core i
      rw [hi] at this
      exact this
    by_cases h7 : l.pc = 7
    · rcases hl.step true with ⟨-, e⟩ | ⟨c', l', e, -⟩
      · refine ⟨1, ?_, _, _, .cons hne (run_enter hi e) .nil, Function.update_self ..⟩
        rw [← hr, rank, h7]
        exact le_rfl
      · rw [Sync.step, h7] at e
        cases e
    · obtain ⟨c', l', e, hlt⟩ := hl.solo hfree h7
      rcases hl.step true with ⟨hpc, -⟩ | ⟨c1, l1, e1, -, hm⟩
      · exact absurd hpc h7
      rw [e] at e1
      cases e1
      have hfree' : c'.val = 0 ∨ l'.Holds := by
        rcases hm with ⟨hv, hh⟩ | ⟨-, -, -, hh⟩
        · rw [hv, hh]
          exact hfree
        · exact .inr hh
      have hex := run_locking (C := C) hi e
      obtain ⟨e', s1, hex', hinv, -⟩ := h.run hM hC hA i true
      rw [hex] at hex'
      cases hex'
      rw [hr] at hlt
      obtain ⟨n, hn, os, s', r', hcrit⟩ :=
        ih _ hlt hinv (Function.update_self i _ s.core) hfree' rfl
      exact ⟨n + 1, by omega, _, s', .cons hne hex r', hcrit⟩

/-- From `unlock` to the return. -/
lemma Inv.release (h : Inv M C P apart s) {o : ο} {l : Local .w} (hi : s.core i = .unlocking o l) :
    ∃ n os s', Solo M C apart i n s os s' ∧ s'.core i = .idle ∧ some (.ret i o) ∈ os := by
  have hne {o : ο} {l : Local .w} : (.unlocking o l : Core ω κ ο) ≠ .idle := fun e => by cases e
  have hl := h.core i
  rw [hi] at hl
  obtain ⟨pc, reg, z⟩ := l
  have last {t : Spin ι σ ω κ ο} (ht : t.core i = .unlocking o ⟨1, reg, z⟩) :
      ∃ n os s', Solo M C apart i n t os s' ∧ s'.core i = .idle ∧ some (.ret i o) ∈ os :=
    ⟨1, _, _, .cons (ht ▸ hne) (run_return ht rfl) .nil, Function.update_self .., List.mem_cons_self⟩
  obtain rfl | rfl : pc = 0 ∨ pc = 1 := hl
  · obtain ⟨n, os, s', r, hidle, hret⟩ := last (t := { s with
      lock := s.lock.store i 0, core := Function.update s.core i (.unlocking o ⟨1, reg, z⟩) })
      (Function.update_self ..)
    exact ⟨n + 1, _, s', .cons (hi ▸ hne) (run_unlocking hi rfl) r, hidle,
      List.mem_cons_of_mem _ hret⟩
  · exact last hi

/-- From the critical section to the return. -/
lemma Inv.complete (hM : M.Sound P) (hA : Stable M P apart) (h : Inv M C P apart s)
    {op : ω} {k : κ} (hi : s.core i = .critical op k) :
    ∃ n os s', Solo M C apart i n s os s' ∧ s'.core i = .idle ∧ ∃ o, some (.ret i o) ∈ os := by
  have hc := h.core i
  rw [hi] at hc
  obtain ⟨o, t, hfin, hex⟩ := hc
  clear hex
  generalize hd : s.data = d at hfin
  induction hfin generalizing s with
  | done e =>
    subst hd
    obtain ⟨-, -, hinv⟩ := h.finish hM hA hi e
    obtain ⟨n, os, s', r, hidle, hret⟩ := hinv.release (Function.update_self ..)
    refine ⟨n + 1, _, s', .cons ?_ (run_finish hi e) r, hidle, _, List.mem_cons_of_mem _ hret⟩
    rw [hi]
    exact fun e => by cases e
  | step e _ ih =>
    subst hd
    obtain ⟨n, os, s', r, hidle, o', hret⟩ := ih (h.work hi e) (Function.update_self ..) rfl
    refine ⟨n + 1, _, s', .cons ?_ (run_work hi e) r, hidle, o', List.mem_cons_of_mem _ hret⟩
    rw [hi]
    exact fun e => by cases e

/-- A core that holds the lock, or finds it free, gets to its return by itself. -/
lemma Inv.solo_return (hM : M.Sound P) (hC : C.Implements M) (hA : Stable M P apart)
    (h : Inv M C P apart s) (hi : s.core i ≠ .idle)
    (hfree : s.lock.val = 0 ∨ (s.core i).Holds ∨ ∃ o l, s.core i = .unlocking o l) :
    ∃ n os s', Solo M C apart i n s os s' ∧ s'.core i = .idle ∧ ∃ o, some (.ret i o) ∈ os := by
  cases e : s.core i with
  | idle => exact absurd e hi
  | locking op l =>
    rw [e] at hfree
    have hfree : s.lock.val = 0 ∨ l.Holds := by
      rcases hfree with h0 | hl | ⟨o, l, e⟩
      · exact .inl h0
      · exact .inr hl
      · cases e
    obtain ⟨n, -, os, s1, r, hcrit⟩ := h.acquire hM hC hA e hfree
    have hinv := (machine_sound hM hC hA).run r h
    obtain ⟨m, os', s', r', hidle, o, hret⟩ := hinv.complete hM hA hcrit
    exact ⟨n + m, _, s', r.trans r', hidle, o, List.mem_append_right _ hret⟩
  | critical op k => exact h.complete hM hA e
  | unlocking o l =>
    obtain ⟨n, os, s', r, hidle, hret⟩ := h.release e
    exact ⟨n, os, s', r, hidle, o, hret⟩

/-- A release is never lost: in every state reached in which no core holds the lock, every core in
`spin_lock`, at `wfe` too, is in its critical section after at most nine steps of its own if it is not
disturbed. -/
theorem spin_lock_acquires (hM : M.Sound P) (hC : C.Implements M) (hA : Stable M P apart) {d : σ}
    (hd : P d) {ls os} (r : (machine M C apart).Run (start d) ls os s)
    (hfree : ∀ j, ¬ (s.core j).Holds) {op : ω} {l : Local .w} (hi : s.core i = .locking op l) :
    (l.pc = 5 → s.lock.event i = true) ∧
    ∃ n ≤ 9, ∃ os' s', (machine M C apart).Run s (List.replicate n (.run i true)) os' s' ∧
      s'.core i = .critical op (C.start op) := by
  have h := (machine_sound hM hC hA).run r (start_inv hd)
  have h0 := h.free hfree
  refine ⟨fun hpc => ?_, ?_⟩
  · have hl := h.core i
    rw [hi] at hl
    obtain ⟨-, hl⟩ := hl
    rw [hpc] at hl
    cases hl.2 with
    | inl hm => exact absurd h0 (hl.1 hm)
    | inr he => exact he
  · obtain ⟨n, hn, os', s', r', hcrit⟩ := h.acquire hM hC hA hi (.inl h0)
    exact ⟨n, hn.trans (rank_le _ _ _), os', s', r', hcrit⟩

/-- One core sleeps at `wfe` while the other ends its critical section and releases the lock. -/
lemma counter_free_run : ∃ s : Spin Bool ℕ Unit (Option ℕ) ℕ, ∃ ls os,
    (machine counter counterCode fun _ _ => True).Run (start 5) ls os s ∧
      s.core false = .unlocking 5 ⟨1, fun _ => 0, false⟩ ∧
      ∃ l, s.core true = .locking () l ∧ l.pc = 5 := by
  have hrun {x : Core Unit (Option ℕ) ℕ} (h : x.op? = some ()) : x ≠ .idle := ne_idle_of_op? h
  have hun {o : ℕ} {l : Local .w} : (.unlocking o l : Core Unit (Option ℕ) ℕ) ≠ .idle :=
    fun e => by cases e
  refine ⟨_, [.call false (), .call true (), .run false true, .run false true, .run false true,
    .run false true, .run false true, .run false true, .run false true, .run true true, .run true true,
    .run false true, .run false true],
    _, .cons ⟨rfl, trivial, fun _ _ _ => trivial⟩ rfl <|
    .cons ⟨rfl, trivial, fun _ _ _ => trivial⟩ rfl <| .cons (hrun rfl) rfl <| .cons (hrun rfl) rfl <|
    .cons (hrun rfl) rfl <| .cons (hrun rfl) rfl <| .cons (hrun rfl) rfl <| .cons (hrun rfl) rfl <|
    .cons (hrun rfl) rfl <| .cons (hrun rfl) rfl <| .cons (hrun rfl) rfl <| .cons (hrun rfl) rfl <|
    .cons hun rfl .nil, rfl, _, rfl, rfl⟩

/-- The core at `wfe` enters its critical section after the release. -/
theorem spin_lock_acquires_counter : ∃ s : Spin Bool ℕ Unit (Option ℕ) ℕ,
    s.lock.event true = true ∧
    ∃ n ≤ 9, ∃ os' s', (machine counter counterCode fun _ _ => True).Run s
      (List.replicate n (.run true true)) os' s' ∧ s'.core true = .critical () none := by
  obtain ⟨s, ls, os, r, e, l, e', hpc⟩ := counter_free_run
  have hfree : ∀ j, ¬ (s.core j).Holds := by
    intro j
    cases j with
    | false =>
      rw [e]
      exact fun h => by cases h
    | true =>
      rw [e']
      simp [Core.Holds, Local.Holds, hpc]
  obtain ⟨hev, h⟩ :=
    spin_lock_acquires counter_sound counterCode_implements counter_stable trivial r hfree e'
  exact ⟨s, hev hpc, h⟩

/-- No reachable state is a deadlock: a call under way on core `i` returns when the holder `j` of the lock, if
another core holds it, and then core `i` are run. -/
theorem spin_lock_completes (hM : M.Sound P) (hC : C.Implements M) (hA : Stable M P apart) {d : σ}
    (hd : P d) {ls os} (r : (machine M C apart).Run (start d) ls os s) (hi : s.core i ≠ .idle) :
    ∃ j n m os' s', (n = 0 ∨ i ≠ j ∧ (s.core j).Holds) ∧
      (machine M C apart).Run s
        (List.replicate n (.run j true) ++ List.replicate m (.run i true)) os' s' ∧
      s'.core i = .idle ∧ ∃ o, some (.ret i o) ∈ os' := by
  have h := (machine_sound hM hC hA).run r (start_inv hd)
  by_cases hown : s.lock.val = 0 ∨ (s.core i).Holds ∨ ∃ o l, s.core i = .unlocking o l
  · obtain ⟨m, os', s', r', hidle, hret⟩ := h.solo_return hM hC hA hi hown
    exact ⟨i, 0, m, os', s', .inl rfl, r', hidle, hret⟩
  · obtain ⟨hv, hown⟩ := not_or.1 hown
    obtain ⟨hnot, -⟩ := not_or.1 hown
    obtain ⟨j, hj⟩ : ∃ j, (s.core j).Holds := by
      by_contra hno
      exact hv (h.free (not_exists.1 hno))
    have hij : i ≠ j := by
      intro e
      subst e
      exact hnot hj
    have hjne : s.core j ≠ .idle := by
      intro e
      rw [e] at hj
      exact hj
    obtain ⟨n, os1, s1, r1, hidle, -⟩ := h.solo_return hM hC hA hjne (.inr (.inl hj))
    have h1 := (machine_sound hM hC hA).run r1 h
    have hi1 : s1.core i = s.core i := r1.core_of_ne hij
    have hfree : s1.lock.val = 0 := by
      refine h1.free fun k hk => ?_
      by_cases e : k = j
      · subst e
        rw [hidle] at hk
        exact hk
      · rw [r1.core_of_ne e] at hk
        exact e (h.unique hk hj)
    obtain ⟨m, os', s', r', hidle', o, hret⟩ := h1.solo_return hM hC hA (hi1 ▸ hi) (.inl hfree)
    exact ⟨j, n, m, _, s', .inr ⟨hij, hj⟩, Machine.Run.append r1 r', hidle', o,
      List.mem_append_right _ hret⟩

/-- One core is in its critical section, the other waits for it. -/
theorem spin_lock_completes_counter : ∃ s : Spin Bool ℕ Unit (Option ℕ) ℕ,
    s.core false = .critical () (some 5) ∧
    ∃ j n m os' s', (n = 0 ∨ true ≠ j ∧ (s.core j).Holds) ∧
      (machine counter counterCode fun _ _ => True).Run s
        (List.replicate n (.run j true) ++ List.replicate m (.run true true)) os' s' ∧
      s'.core true = .idle ∧ ∃ o, some (.ret true o) ∈ os' := by
  obtain ⟨s, ls, os, r, e, l, e', -⟩ := counter_run
  refine ⟨s, e, ?_⟩
  refine spin_lock_completes counter_sound counterCode_implements counter_stable trivial r ?_
  rw [e']
  exact fun e => by cases e

end Spin

end KingdoKernel.Sync
