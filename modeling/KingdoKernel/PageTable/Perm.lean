import KingdoKernel.PageTable.Flat

/-!
# What the leaves permit

The access permissions of an entry as the architecture reads them, against what the call asked for that
installed it. `__vmr_prot_to_ap` knows neither a permission of the kernel alone nor one without access,
so a leaf stays within its call only if the call is one of `map_range_in_pgtbl_user` with `VMR_READ` or
`VMR_WRITE`: `leaves_respect_iff` is the statement over all sequences of calls.
-/

namespace KingdoKernel.PageTable
open BitField

/-- `AP` 0 and 1 let EL1 write. -/
def el1Writable (pte : ℕ) : Prop := l3Page.get pte .AP = 0 ∨ l3Page.get pte .AP = 1

/-- `AP` 1 lets EL0 write. -/
def el0Writable (pte : ℕ) : Prop := l3Page.get pte .AP = 1

/-- `AP` 1 and 3 let EL0 read. -/
def el0Readable (pte : ℕ) : Prop := l3Page.get pte .AP = 1 ∨ l3Page.get pte .AP = 3

/-- EL1 may execute. -/
def el1Executable (pte : ℕ) : Prop := l3Page.get pte .PXN = 0

/-- EL0 may execute. -/
def el0Executable (pte : ℕ) : Prop := l3Page.get pte .UXN = 0

/-- An entry that grants no more than the call asked for. -/
structure Respects (c : Call) (pte : ℕ) : Prop where
  write : el1Writable pte ∨ el0Writable pte → c.flags &&& vmrWrite ≠ 0
  kernelOnly : c.kind = .kernelPte → ¬ (el0Readable pte ∨ el0Writable pte)
  el0Exec : el0Executable pte → c.kind = .userPte ∧ c.flags &&& vmrExec ≠ 0
  el1Exec : el1Executable pte → c.kind = .kernelPte ∧ c.flags &&& vmrExec ≠ 0

/-- The page is one of those the call maps. -/
def Call.Covers (c : Call) (v : ℕ) : Prop := ∃ i < pageCnt c.len, (vpn c.va + i) % 2 ^ 36 = v

instance (c : Call) (v : ℕ) : Decidable (c.Covers v) :=
  inferInstanceAs (Decidable (∃ i < pageCnt c.len, (vpn c.va + i) % 2 ^ 36 = v))

/-- The last call of the sequence that covers the page, `o` if there is none. -/
def lastCallFrom (v : ℕ) (o : Option Call) (cs : List Call) : Option Call :=
  cs.foldl (fun o c => if c.Covers v then some c else o) o

/-- The last call of the sequence that covers the page. -/
def lastCall (cs : List Call) (v : ℕ) : Option Call := lastCallFrom v none cs

section Attributes

variable (pa flags : ℕ)

/-- The access permission fits its field. -/
lemma vmrProtToAp_lt : __vmrProtToAp flags < 4 := by
  unfold __vmrProtToAp
  split_ifs <;> decide

/-- The access permission in the entry of a page. -/
lemma pagePte_AP (kind : PteKind) : l3Page.get (pagePte pa flags kind) .AP = __vmrProtToAp flags := by
  have h := Nat.mod_eq_of_lt (vmrProtToAp_lt flags)
  unfold pagePte setPteFlags
  cases kind <;> simp only [] <;> split_ifs <;> simp [Layout.get_set] <;> exact h

/-- The kernel does not execute pages of users. -/
lemma pagePte_PXN_user : l3Page.get (pagePte pa flags .userPte) .PXN = 1 := by
  unfold pagePte setPteFlags
  simp only []
  split_ifs <;> simp [Layout.get_set, l3Page]

/-- Users execute the pages asked for with `VMR_EXEC`. -/
lemma pagePte_UXN_user : l3Page.get (pagePte pa flags .userPte) .UXN = 0 ↔ flags &&& vmrExec ≠ 0 := by
  unfold pagePte setPteFlags
  by_cases he : flags &&& vmrExec = 0
  · simp only [he, if_true]
    split_ifs <;> simp [Layout.get_set, l3Page]
  · simp only [he, if_false]
    split_ifs <;> simp [Layout.get_set] <;> exact he

/-- What `__vmr_prot_to_ap` makes of the flags. -/
lemma vmrProtToAp_cases :
    (__vmrProtToAp flags = 1 ∧ flags &&& vmrWrite ≠ 0) ∨
    (__vmrProtToAp flags = 3 ∧ flags &&& vmrRead ≠ 0 ∧ flags &&& vmrWrite = 0) ∨
    (__vmrProtToAp flags = 0 ∧ flags &&& vmrRead = 0 ∧ flags &&& vmrWrite = 0) := by
  unfold __vmrProtToAp
  by_cases hw : flags &&& vmrWrite = 0
  · by_cases hr : flags &&& vmrRead = 0
    · exact .inr (.inr ⟨by simp [hr, hw], hr, hw⟩)
    · exact .inr (.inl ⟨by simp [hr, hw, apHighRoEl0Ro], hr, hw⟩)
  · exact .inl ⟨by simp [hw, apHighRwEl0Rw], hw⟩

end Attributes

/-- The entry a call installs grants no more than the call asked for exactly if the call is one for user
space with a permission. -/
lemma respects_pagePte_iff (c : Call) (pa : ℕ) : Respects c (pagePte pa c.flags c.kind) ↔
    c.kind = .userPte ∧ (c.flags &&& vmrRead ≠ 0 ∨ c.flags &&& vmrWrite ≠ 0) := by
  have hAP := pagePte_AP pa c.flags c.kind
  constructor
  · intro h
    rcases vmrProtToAp_cases c.flags with ⟨ha, hw⟩ | ⟨ha, hr, -⟩ | ⟨ha, -, hw⟩
    · rw [ha] at hAP
      cases hk : c.kind with
      | userPte => exact ⟨rfl, .inr hw⟩
      | kernelPte => exact absurd (.inr hAP) (h.kernelOnly hk)
    · rw [ha] at hAP
      cases hk : c.kind with
      | userPte => exact ⟨rfl, .inl hr⟩
      | kernelPte => exact absurd (.inl (.inr hAP)) (h.kernelOnly hk)
    · -- without a permission EL1 may write
      rw [ha] at hAP
      exact absurd hw (h.write (.inl (.inl hAP)))
  · rintro ⟨hk, hrw⟩
    rw [hk] at hAP
    rw [hk]
    have hP := pagePte_PXN_user pa c.flags
    have hU := pagePte_UXN_user pa c.flags
    constructor
    case write =>
      intro h hw
      rcases vmrProtToAp_cases c.flags with ⟨-, hw'⟩ | ⟨ha, -⟩ | ⟨-, hr, -⟩
      · exact hw' hw
      · rw [ha] at hAP
        unfold el1Writable el0Writable at h
        omega
      · cases hrw with
        | inl h' => exact h' hr
        | inr h' => exact h' hw
    case kernelOnly =>
      intro h
      rw [hk] at h
      cases h
    case el0Exec => exact fun h => ⟨hk, hU.1 h⟩
    case el1Exec =>
      intro h
      unfold el1Executable at h
      omega

/-- The pages of a call get an entry of the call, the others keep theirs. -/
lemma setPages_covers (flags : ℕ) (kind : PteKind) (n va pa : ℕ) (f : ℕ → ℕ) (v : ℕ) :
    ((∃ i < n, (vpn va + i) % 2 ^ 36 = v) → ∃ a, setPages flags kind n va pa f v = pagePte a flags kind) ∧
      ((¬ ∃ i < n, (vpn va + i) % 2 ^ 36 = v) → setPages flags kind n va pa f v = f v) := by
  induction n generalizing va pa f with
  | zero =>
    refine ⟨?_, fun _ => rfl⟩
    rintro ⟨i, hi, -⟩
    exact absurd hi (Nat.not_lt_zero i)
  | succ n ih =>
    have hvpn := vpn_next va
    have hlt := vpn_lt va
    obtain ⟨ih1, ih2⟩ := ih ((va + pageSize) % 2 ^ 64) ((pa + pageSize) % 2 ^ 64)
      (Function.update f (vpn va) (pagePte pa flags kind))
    have hrest : ∀ i, (vpn ((va + pageSize) % 2 ^ 64) + i) % 2 ^ 36 = (vpn va + (i + 1)) % 2 ^ 36 := by
      intro i
      rw [hvpn, Nat.mod_add_mod, Nat.add_assoc, Nat.add_comm 1 i]
    rw [setPages]
    by_cases hin : ∃ i < n, (vpn ((va + pageSize) % 2 ^ 64) + i) % 2 ^ 36 = v
    · refine ⟨fun _ => ih1 hin, fun hno => ?_⟩
      obtain ⟨i, hi, e⟩ := hin
      rw [hrest] at e
      exact absurd ⟨i + 1, Nat.succ_lt_succ hi, e⟩ hno
    · rw [ih2 hin]
      by_cases hv : v = vpn va
      · subst hv
        rw [Function.update_self]
        exact ⟨fun _ => ⟨pa, rfl⟩, fun hno => absurd ⟨0, Nat.succ_pos n, Nat.mod_eq_of_lt hlt⟩ hno⟩
      · rw [Function.update_of_ne hv]
        refine ⟨?_, fun _ => rfl⟩
        rintro ⟨i, hi, e⟩
        cases i with
        | zero => exact absurd ((Nat.mod_eq_of_lt hlt).symm.trans e).symm hv
        | succ i => exact absurd ⟨i, Nat.lt_of_succ_lt_succ hi, by rw [hrest]; exact e⟩ hin

/-- The entry of a page is one of the call `o`, or zero. -/
def Installed (o : Option Call) (pte : ℕ) : Prop :=
  match o with
  | some c => ∃ pa, pte = pagePte pa c.flags c.kind
  | none => pte = 0

/-- After a sequence of calls the entry of a page is one of the last call that covers it. -/
lemma installed_foldl (cs : List Call) (f : ℕ → ℕ) (o : Option Call) (v : ℕ) (h : Installed o (f v)) :
    Installed (lastCallFrom v o cs) (cs.foldl (fun f c => c.setLeaves f) f v) := by
  induction cs generalizing f o with
  | nil => exact h
  | cons c cs ih =>
    obtain ⟨h1, h2⟩ := setPages_covers c.flags c.kind (pageCnt c.len) c.va c.pa f v
    apply ih
    beta_reduce
    by_cases hc : c.Covers v
    · rw [if_pos hc]
      exact h1 hc
    · have hkeep : c.setLeaves f v = f v := h2 hc
      rw [if_neg hc, hkeep]
      exact h

/-- The last call is one of the sequence and covers the page. -/
lemma lastCall_spec {v : ℕ} {cs : List Call} {c : Call} (h : lastCall cs v = some c) :
    c ∈ cs ∧ c.Covers v := by
  suffices hall : ∀ o, lastCallFrom v o cs = some c → o = some c ∨ (c ∈ cs ∧ c.Covers v) by
    exact (hall none h).resolve_left fun e => by cases e
  clear h
  induction cs with
  | nil => exact fun o h => .inl h
  | cons d cs ih =>
    intro o h
    rcases ih _ h with e | ⟨hm, hc⟩
    · beta_reduce at e
      split at e
      · next hc =>
        cases e
        exact .inr ⟨List.mem_cons_self, hc⟩
      · exact .inl e
    · exact .inr ⟨List.mem_cons_of_mem _ hm, hc⟩

/-- For every sequence of calls that return: no leaf of the table grants more than the last call covering
its page asked for, exactly if that call is one of `map_range_in_pgtbl_user` with `VMR_READ` or
`VMR_WRITE`, for every page. -/
theorem leaves_respect_iff (getPages : ℕ → ℕ) (root : ℕ) (m : Mem) (cs : List Call) (s : State)
    (hroot : IsPage root) (hzero : ∀ a, root ≤ a → a < root + 4096 → m a = 0)
    (hf : Fresh getPages {root}) (hr : runCalls getPages root cs ⟨m, 0, none⟩ = .ok s) :
    (∀ x pa e, queryInPgtbl s.mem root x = .ok (pa, e) →
        ∃ c, lastCall cs (vpn x) = some c ∧ Respects c (s.mem.load e 8)) ↔
      ∀ v c, lastCall cs v = some c →
        c.kind = .userPte ∧ (c.flags &&& vmrRead ≠ 0 ∨ c.flags &&& vmrWrite ≠ 0) := by
  obtain ⟨-, tab, h, hl⟩ := runCalls_spec hf (.zero hroot hzero) hr
  rw [leafAt_rootOnly] at hl
  have hinst : ∀ v, Installed (lastCall cs v) (leafAt s.mem tab v) := by
    intro v
    rw [hl]
    exact installed_foldl cs _ none v rfl
  constructor
  · intro hall v c hc
    obtain ⟨-, i, -, hcov⟩ := lastCall_spec hc
    have hv : v < 2 ^ 36 := hcov ▸ Nat.mod_lt _ (Nat.two_pow_pos _)
    have hvpn : vpn (v * 4096) = v := by unfold vpn; omega
    have hi := hinst v
    rw [hc] at hi
    obtain ⟨pa, hi⟩ := hi
    have hvalid : isPteInvalid (leafAt s.mem tab (vpn (v * 4096))) = false := by
      rw [hvpn, hi]
      exact pagePte_valid _ _ _
    obtain ⟨e, hq, he⟩ := query_leaf h.toTree hvalid
    obtain ⟨c', hc', hresp⟩ := hall _ _ _ hq
    rw [hvpn, hc] at hc'
    cases hc'
    rw [he, hvpn, hi] at hresp
    exact (respects_pagePte_iff c pa).1 hresp
  · intro hcond x pa e hq
    have hi := hinst (vpn x)
    cases hc : lastCall cs (vpn x) with
    | none =>
      rw [hc] at hi
      have hi' : leafAt s.mem tab (vpn x) = 0 := hi
      rw [query_none h.toTree rfl rfl (by rw [hi']; exact isPteInvalid_zero)] at hq
      cases hq
    | some c =>
      rw [hc] at hi
      obtain ⟨a, hi⟩ := hi
      have hvalid : isPteInvalid (leafAt s.mem tab (vpn x)) = false := by
        rw [hi]
        exact pagePte_valid _ _ _
      obtain ⟨e', hq', he'⟩ := query_leaf h.toTree hvalid
      rw [hq] at hq'
      cases hq'
      refine ⟨c, rfl, ?_⟩
      rw [he', hi]
      exact (respects_pagePte_iff c a).2 (hcond _ c hc)

/-- Two calls for user space, the second of which takes the write permission from a page of the first. -/
def userCalls : List Call :=
  [⟨.userPte, 0x400000, 0x5000, 8192, vmrRead ||| vmrWrite, some 0⟩,
    ⟨.userPte, 0x401000, 0x6000, 4096, vmrRead ||| vmrExec, some 0⟩]

/-- The calls of a short sequence return. -/
lemma runCalls_pagesFrom (cs : List Call) (hc : ∀ c ∈ cs, c.va % 4096 = 0 ∧ c.va < 2 ^ 64)
    (hn : 3 * (cs.map fun c => pageCnt c.len).sum ≤ 9) :
    ∃ s, runCalls (pagesFrom 9) 0x1000 cs ⟨fun _ => 0, 0, none⟩ = .ok s := by
  have hpages : ∀ n < 9, pagesFrom 9 n ≠ 0 := by decide
  have hf : Fresh (pagesFrom 9) {0x1000} := pagesFrom_fresh (by decide) (by decide)
  refine runCalls_ok cs hf
    (Mapped.zero (s := ⟨fun _ => 0, 0, none⟩) ⟨by decide, by decide⟩ fun _ _ _ => rfl) (fun c h => ?_)
    fun n hlt => hpages n (by simp only [] at hlt; omega)
  exact ⟨(hc c h).1, (hc c h).2, fun _ _ _ => rfl⟩

/-- The statement for two calls. -/
theorem leaves_respect_iff_user : ∃ s, runCalls (pagesFrom 9) 0x1000 userCalls ⟨fun _ => 0, 0, none⟩ = .ok s ∧
    ∀ x pa e, queryInPgtbl s.mem 0x1000 x = .ok (pa, e) →
      ∃ c, lastCall userCalls (vpn x) = some c ∧ Respects c (s.mem.load e 8) := by
  obtain ⟨s, hr⟩ := runCalls_pagesFrom userCalls (by decide) (by decide)
  refine ⟨s, hr, (leaves_respect_iff (pagesFrom 9) 0x1000 _ userCalls s ⟨by decide, by decide⟩
    (fun _ _ _ => rfl) (pagesFrom_fresh (by decide) (by decide)) hr).2 ?_⟩
  have hall : ∀ c ∈ userCalls,
      c.kind = .userPte ∧ (c.flags &&& vmrRead ≠ 0 ∨ c.flags &&& vmrWrite ≠ 0) := by decide
  exact fun v c hc => hall c (lastCall_spec hc).1

/-- A page of the kernel, readable and writable, as `main` maps its stack. -/
def kernelCalls : List Call := [⟨.kernelPte, 0x400000, 0x5000, 4096, vmrRead ||| vmrWrite, none⟩]

/-- A page mapped for the kernel may be read and written by EL0. -/
theorem kernel_page_open_to_el0 : IsPage 0x1000 ∧ Fresh (pagesFrom 9) {0x1000} ∧
    ∃ s, runCalls (pagesFrom 9) 0x1000 kernelCalls ⟨fun _ => 0, 0, none⟩ = .ok s ∧
      ∃ x pa e c, queryInPgtbl s.mem 0x1000 x = .ok (pa, e) ∧ lastCall kernelCalls (vpn x) = some c ∧
        c.kind = .kernelPte ∧ el0Readable (s.mem.load e 8) ∧ el0Writable (s.mem.load e 8) := by
  have hf : Fresh (pagesFrom 9) {0x1000} := pagesFrom_fresh (by decide) (by decide)
  obtain ⟨s, hr⟩ := runCalls_pagesFrom kernelCalls (by decide) (by decide)
  obtain ⟨-, tab, h, hl⟩ := runCalls_spec hf (.zero ⟨by decide, by decide⟩ fun _ _ _ => rfl) hr
  have hleaf : leafAt s.mem tab (vpn 0x400000) = pagePte 0x5000 3 .kernelPte := by
    rw [hl]
    rfl
  obtain ⟨e, hq, he⟩ := query_leaf (x := 0x400000) h.toTree (by rw [hleaf]; exact pagePte_valid _ _ _)
  have hAP : l3Page.get (s.mem.load e 8) .AP = 1 := by
    rw [he, hleaf, pagePte_AP]
    rfl
  exact ⟨⟨by decide, by decide⟩, hf, s, hr, 0x400000, _, e, _, hq, rfl, rfl, .inl hAP, hAP⟩

end KingdoKernel.PageTable
