import KingdoKernel.Buddy.Run
import KingdoKernel.Sync.Progress

/-!
# The buddy allocator on several cores

`buddy_get_pages` and `buddy_free_pages` do all their work under `free_lists_lock`. Whatever steps that work
is made of (`Sync.Code`), and however the cores are interleaved, the allocator goes through the states of the
sequential one: `buddy_concurrent_consistent`. A caller frees only the head of an outstanding chunk, and two
calls under way do not free the same one. `buddyCode` is the work of the two functions in steps of their
statements.
-/

namespace KingdoKernel.Buddy
open Tiles Tiles.Block
open Sync (Spin Code)

/-- Calls that may be under way together. -/
def Op.apart : Op → Op → Prop
  | .freePages page, .freePages page' => page ≠ page'
  | .freePages _, .getPages _ => True
  | .getPages _, .freePages _ => True
  | .getPages _, .getPages _ => True

/-- A call stays allowed while others that may be under way with it are executed. -/
lemma machine_stable (r : Buddy) : Sync.Stable machine (Good r) Op.apart where
  symm op op' h := by
    cases op with
    | getPages order =>
      cases op' with
      | getPages order' => trivial
      | freePages page' => trivial
    | freePages page =>
      cases op' with
      | getPages order' => trivial
      | freePages page' => exact Ne.symm h
  keep s op op' o s' hs hen hen' hap hex := by
    cases op' with
    | getPages order' => exact hen'
    | freePages page' =>
      obtain ⟨c, hc, rfl⟩ := hen'
      cases op with
      | getPages order =>
        rcases hs.getPages hen with ⟨e, -⟩ | ⟨p, t, e, -⟩
        · rw [hex] at e
          cases e
          exact ⟨c, hc, rfl⟩
        · rw [hex] at e
          cases e
          exact ⟨c, List.mem_cons_of_mem _ hc, rfl⟩
      | freePages page =>
        obtain ⟨b, hb, rfl⟩ := hen
        obtain ⟨t, e, -⟩ := hs.freePages hb
        rw [hex] at e
        cases e
        exact ⟨c, List.mem_filter.2 ⟨hc, by simpa using Ne.symm hap⟩, rfl⟩

/-- Where a core is in the work of a call. -/
inductive Work where
  | get (order : ℕ)
  | check (order : ℕ) (page : Option ℕ)
  | free (page : ℕ)
  | merge (page : ℕ)
  | add (page mergePage : ℕ)

/-- The statements between `lock` and `unlock`. -/
def buddyCode : Code Fault Sys Op Work (Option ℕ) where
  start
    | .getPages order => .get order
    | .freePages page => .free page
  step k s :=
    match k with
    | .get order =>
      if (s.buddy.freeLists order).nrFree = 0 then do
        let x ← s.buddy.splitChunk (order + 1)
        pure (.inl (.check order x.1), ⟨x.2, s.out⟩)
      else do
        let x ← s.buddy.takeFirst order
        pure (.inl (.check order (some x.1)), ⟨x.2, s.out⟩)
    | .check order page =>
      match page with
      | none => pure (.inr none, s)
      | some page =>
        if (s.buddy.pages page).allocated = 1 then .error (.kerror "page %p has been allocated\n")
        else if (s.buddy.pages page).order ≠ order then .error (.bugOn "page->order != order")
        else do
          let b ← s.buddy.setAllocated page 1
          pure (.inr (some page), ⟨b, ⟨page, order⟩ :: s.out⟩)
    | .free page => do
      let b ← s.buddy.setAllocated page 0
      pure (.inl (.merge page), ⟨b, s.out⟩)
    | .merge page => do
      let x ← s.buddy.mergeChunk page
      pure (.inl (.add page x.1), ⟨x.2, s.out⟩)
    | .add page mergePage =>
      let order := (s.buddy.pages mergePage).order
      if buddyMaxOrder ≤ order then .error .wild
      else .ok (.inr none, ⟨s.buddy.addFree order mergePage, s.out.filter fun b => b.start ≠ page⟩)

/-- The last step of `buddy_get_pages`: the page found is marked. -/
lemma buddyCode_check {s : Sys} {order page : ℕ} {b : Buddy}
    (h1 : ¬ (s.buddy.pages page).allocated = 1) (h2 : ¬ (s.buddy.pages page).order ≠ order)
    (e : s.buddy.setAllocated page 1 = .ok b) :
    buddyCode.step (.check order (some page)) s =
      .ok (.inr (some page), ⟨b, ⟨page, order⟩ :: s.out⟩) := by
  simp only [buddyCode]
  rw [if_neg h1, if_neg h2, e, ok_bind, pure_eq_ok]

/-- The steps, taken one after the other, are the two functions. -/
lemma buddyCode_implements : buddyCode.Implements machine := by
  intro s op o s' _ hex
  cases op with
  | getPages order =>
    obtain ⟨⟨page, b⟩, e, hex⟩ := bind_eq_ok.1 hex
    rw [buddyGetPages] at e
    by_cases h0 : (s.buddy.freeLists order).nrFree = 0
    · rw [if_pos h0] at e
      obtain ⟨⟨page', b'⟩, e1, e⟩ := bind_eq_ok.1 e
      have hget : buddyCode.step (.get order) s = .ok (.inl (.check order page'), ⟨b', s.out⟩) := by
        simp only [buddyCode]
        rw [if_pos h0, e1, ok_bind, pure_eq_ok]
      refine .step hget (.done ?_)
      cases page' with
      | none =>
        cases e
        cases hex
        rfl
      | some p =>
        dsimp only at e
        split at e
        · cases e
        split at e
        · cases e
        obtain ⟨b2, e2, e⟩ := bind_eq_ok.1 e
        cases e
        cases hex
        exact buddyCode_check ‹_› ‹_› e2
    · rw [if_neg h0] at e
      obtain ⟨⟨p, b'⟩, e1, e⟩ := bind_eq_ok.1 e
      have hget : buddyCode.step (.get order) s =
          .ok (.inl (.check order (some p)), ⟨b', s.out⟩) := by
        simp only [buddyCode]
        rw [if_neg h0, e1, ok_bind, pure_eq_ok]
      refine .step hget (.done ?_)
      dsimp only [pure_eq_ok, ok_bind] at e
      split at e
      · cases e
      split at e
      · cases e
      obtain ⟨b2, e2, e⟩ := bind_eq_ok.1 e
      cases e
      cases hex
      exact buddyCode_check ‹_› ‹_› e2
  | freePages page =>
    obtain ⟨b, e, hex⟩ := bind_eq_ok.1 hex
    cases hex
    rw [buddyFreePages] at e
    obtain ⟨b1, e1, e⟩ := bind_eq_ok.1 e
    obtain ⟨⟨m, b2⟩, e2, e⟩ := bind_eq_ok.1 e
    dsimp only at e
    split at e
    · cases e
    next hlt =>
      cases e
      have h1 : buddyCode.step (.free page) s = .ok (.inl (.merge page), ⟨b1, s.out⟩) := by
        simp only [buddyCode, e1, ok_bind, pure_eq_ok]
      have h2 : buddyCode.step (.merge page) ⟨b1, s.out⟩ =
          .ok (.inl (.add page m), ⟨b2, s.out⟩) := by
        simp only [buddyCode, e2, ok_bind, pure_eq_ok]
      refine .step h1 (.step h2 (.done ?_))
      simp only [buddyCode]
      rw [if_neg hlt]

/-- On any number of cores, in any interleaving, the allocator is consistent after the critical sections
that have ended, whatever steps they consist of; its calls take effect one at a time, between their call and
their return, as those of the sequential allocator; and outside critical sections the lists, counters and
descriptors in memory are those of that state. -/
theorem buddy_concurrent_consistent {imgEnd : ℕ} (h : HasAlignedPage (initRegion imgEnd)) {b : Buddy}
    (hb : initBuddy imgEnd = .ok b) {ι κ : Type} [DecidableEq ι] {C : Code Fault Sys Op κ (Option ℕ)}
    (hC : C.Implements machine) {s : Spin ι Sys Op κ (Option ℕ)} {ls os}
    (r : (Spin.machine machine C Op.apart).Run (Spin.start ⟨b, []⟩) ls os s) :
    Consistent s.serial ∧ Linear machine ⟨b, []⟩ os.reduceOption s.serial s.status ∧
      ((∀ i op k, s.core i ≠ .critical op k) → s.data = s.serial) ∧
      ∀ a, (Spin.machine machine C Op.apart).enabled s a →
        ∃ e s', (Spin.machine machine C Op.apart).exec s a = .ok (e, s') := by
  obtain ⟨b', e, hg⟩ := initBuddy_good h
  rw [hb] at e
  cases e
  have hsound : Machine.Sound (Spin.machine machine C Op.apart)
      fun s : Spin ι Sys Op κ (Option ℕ) => s.Inv machine C (Good (initRegion imgEnd)) Op.apart :=
    Spin.machine_sound (machine_sound _) hC (machine_stable _)
  have hinv := hsound.run r (Spin.start_inv hg)
  refine ⟨hinv.good.consistent, ?_, hinv.settled, fun a hen => ?_⟩
  · exact (Spin.machine_linearizes (machine_sound _) hC (machine_stable _)).run r (Spin.start_inv hg) .nil
  · obtain ⟨e, s', hex, -⟩ := hsound s a hinv hen
    exact ⟨e, s', hex⟩

/-- Two cores ask for pages at once; the first gets its answer while the second is at the lock. -/
lemma two_callers {b : Buddy} (hg : Good (initRegion (physMemEnd - 0x500000)) ⟨b, []⟩) :
    ∃ (s : Spin Bool Sys Op Work (Option ℕ)) (ls : List (Sync.Label Bool Op))
      (os : List (Option (Event Bool Op (Option ℕ)))),
      (Spin.machine machine buddyCode Op.apart).Run (Spin.start ⟨b, []⟩) ls os s ∧
      s.core false = .idle ∧ (∃ page, some (.ret false page) ∈ os) ∧
      ∃ l, s.core true = .locking (.getPages 0) l := by
  have h3 : 3 ≤ 10 := by decide
  have calls : ∃ (s : Spin Bool Sys Op Work (Option ℕ)) (ls : List (Sync.Label Bool Op))
      (os : List (Option (Event Bool Op (Option ℕ)))),
      (Spin.machine machine buddyCode Op.apart).Run (Spin.start ⟨b, []⟩) ls os s ∧
      (∃ l, s.core false = .locking (.getPages 3) l) ∧ (∃ l, s.core true = .locking (.getPages 0) l) ∧
      s.lock.val = 0 := by
    refine ⟨_, [.call false (.getPages 3), .call true (.getPages 0)], _,
      .cons ⟨rfl, h3, fun j op' h => ?_⟩ rfl (.cons ⟨rfl, Nat.zero_le 10, fun j op' h => ?_⟩ rfl .nil),
      ⟨_, rfl⟩, ⟨_, rfl⟩, rfl⟩
    · cases op' <;> trivial
    · cases op' <;> trivial
  obtain ⟨s, ls, os, r, ⟨l, hf⟩, ⟨l', ht⟩, h0⟩ := calls
  have hinv := (Spin.machine_sound (machine_sound _) buddyCode_implements (machine_stable _)).run r
    (Spin.start_inv hg)
  have hne : s.core false ≠ .idle := by
    rw [hf]
    exact fun e => by cases e
  obtain ⟨n, os', s', r', hidle, o, hret⟩ := hinv.solo_return (machine_sound _) buddyCode_implements
    (machine_stable _) hne (.inl h0)
  refine ⟨s', _, _, Machine.Run.append r r', hidle, ⟨o, List.mem_append_right _ hret⟩, l', ?_⟩
  rw [r'.core_of_ne (by decide), ht]

/-- The calls of `two_callers` and all their instructions up to the first return. -/
theorem buddy_concurrent_consistent_five_mb :
    ∃ b, initBuddy (physMemEnd - 0x500000) = .ok b ∧
    ∃ (s : Spin Bool Sys Op Work (Option ℕ)) (os : List (Option (Event Bool Op (Option ℕ)))),
      s.core false = .idle ∧
      (∃ page, some (.ret false page) ∈ os) ∧ (∃ l, s.core true = .locking (.getPages 0) l) ∧
      Consistent s.serial ∧ Linear machine ⟨b, []⟩ os.reduceOption s.serial s.status ∧
      s.data = s.serial := by
  obtain ⟨b, e, hg⟩ := initBuddy_good hasAlignedPage_five_mb
  obtain ⟨s, ls, os, r, hf, hret, l, ht⟩ := two_callers hg
  obtain ⟨hcons, hlin, hdata, -⟩ :=
    buddy_concurrent_consistent hasAlignedPage_five_mb e buddyCode_implements r
  refine ⟨b, e, s, os, hf, hret, ⟨l, ht⟩, hcons, hlin, hdata fun i op k hk => ?_⟩
  cases i with
  | false =>
    rw [hf] at hk
    cases hk
  | true =>
    rw [ht] at hk
    cases hk

end KingdoKernel.Buddy
