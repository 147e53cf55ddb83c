import KingdoKernel.PageTable.Walk

/-!
# Mapping ranges

The two loops of `map_range_in_pgtbl_common` against what they do to the last-level entries:
`setPages` writes one entry for each page in turn. The loop invariant is that the pages still to be set,
set from what the tree holds now, give what the whole call has to give; `fillEntries_spec` is the step of
the inner loop and `mapLoop_spec` the outer one. A sequence of calls on one table is `runCalls`, and
`runCalls_spec` carries the tree and its entries through the sequence.
-/

namespace KingdoKernel.PageTable
open BitField

section PagePte

variable (pa flags : ℕ) (kind : PteKind)

/-- `set_pte_flags` keeps an entry a word. -/
lemma setPteFlags_lt {entry : ℕ} (h : entry < 2 ^ 64) : setPteFlags entry flags kind < 2 ^ 64 := by
  have hset : ∀ {v} (i : L3Page) (x : ℕ), v < 2 ^ 64 → l3Page.set v i x < 2 ^ 64 :=
    fun i x hv => l3Page.set_lt hv i x
  unfold setPteFlags
  cases kind <;> simp only [] <;> split_ifs <;> repeat apply hset
  all_goals exact h

/-- The entry of a page is a word. -/
lemma pagePte_lt : pagePte pa flags kind < 2 ^ 64 :=
  setPteFlags_lt flags kind
    (l3Page.set_lt (l3Page.set_lt (l3Page.set_lt (Nat.two_pow_pos 64) _ _) _ _) _ _)

/-- `set_pte_flags` leaves the valid bit, the page bit and the frame number. -/
lemma setPteFlags_get (entry : ℕ) {i : L3Page} (hi : i = .isValid ∨ i = .isPage ∨ i = .pfn) :
    l3Page.get (setPteFlags entry flags kind) i = l3Page.get entry i := by
  rcases hi with rfl | rfl | rfl <;> unfold setPteFlags <;> cases kind <;> simp only [] <;>
    split_ifs <;> simp [Layout.get_set]

/-- The entry of a page has the valid bit. -/
lemma pagePte_isValid : l3Page.get (pagePte pa flags kind) .isValid = 1 := by
  rw [pagePte, setPteFlags_get _ _ _ (.inl rfl)]
  simp [Layout.get_set, l3Page]

/-- The entry of a page has the page bit. -/
lemma pagePte_isPage : l3Page.get (pagePte pa flags kind) .isPage = 1 := by
  rw [pagePte, setPteFlags_get _ _ _ (.inr (.inl rfl))]
  simp [Layout.get_set, l3Page]

/-- The frame in the entry of a page. -/
lemma pagePte_pfn : l3Page.get (pagePte pa flags kind) .pfn = pa / 4096 % 2 ^ 36 := by
  rw [pagePte, setPteFlags_get _ _ _ (.inr (.inr rfl)), Layout.get_set, if_pos rfl,
    Nat.shiftRight_eq_div_pow]
  rfl

/-- The entry of a page is valid. -/
lemma pagePte_valid : isPteInvalid (pagePte pa flags kind) = false :=
  isPteInvalid_eq_false (pagePte_isValid pa flags kind)

/-- The frame number is where the walk reads the address of a table. -/
lemma getPaddrInPte_pagePte : getPaddrInPte (pagePte pa flags kind) = pa / 4096 % 2 ^ 36 * 4096 := by
  rw [getPaddrInPte_eq, ← pagePte_pfn pa flags kind]
  rfl

end PagePte

/-- The last-level entries after `n` pages from `va` on have been mapped to the frames from `pa` on. -/
def setPages (flags : ℕ) (kind : PteKind) : ℕ → ℕ → ℕ → (ℕ → ℕ) → ℕ → ℕ
  | 0, _, _, f => f
  | n + 1, va, pa, f =>
    setPages flags kind n ((va + pageSize) % 2 ^ 64) ((pa + pageSize) % 2 ^ 64)
      (Function.update f (vpn va) (pagePte pa flags kind))

/-- The next page in 64-bit arithmetic. -/
lemma vpn_next (va : ℕ) : vpn ((va + pageSize) % 2 ^ 64) = (vpn va + 1) % 2 ^ 36 := by
  unfold vpn pageSize
  omega

section Loops

variable {getPages : ℕ → ℕ} {tables : Set ℕ} {B : Blocks} {root : ℕ} {s s' : State}
  {tab : ℕ → ℕ → Option ℕ} {c : Cursor} {p k i : ℕ} (flags : ℕ) (kind : PteKind)

/-- The entries the loops will have produced when no page is left, from the entries there are now. -/
def Cursor.goal (c : Cursor) (flags : ℕ) (kind : PteKind) (tab : ℕ → ℕ → Option ℕ) : ℕ → ℕ :=
  setPages flags kind c.totalPageCnt c.va c.pa (leafAt c.state.mem tab)

/-- One pass of the `for` loop. -/
lemma fill_spec (h : Mapped getPages tables B root c.state tab) (hp : tab 3 k = some p)
    (hv : vpn c.va = 512 * k + i) (hi : i < 512) (hc : 0 < c.totalPageCnt) :
    Mapped getPages tables B root (c.fill p flags kind i).state tab ∧
      (c.fill p flags kind i).goal flags kind tab = c.goal flags kind tab := by
  have hk : vpn c.va / 512 = k := by omega
  have hm : vpn c.va % 512 = i := by omega
  rw [← hk] at hp
  constructor
  · refine { toTree := ?_, known := h.known }
    have htree := h.toTree.setLeaf hp (pagePte c.pa flags kind)
    rw [hm] at htree
    exact htree
  · have hleaf := h.toTree.leafAt_setLeaf hp (pagePte_lt c.pa flags kind)
    rw [hm] at hleaf
    obtain ⟨n, hn⟩ : ∃ n, c.totalPageCnt = n + 1 := Nat.exists_eq_succ_of_ne_zero hc.ne'
    have hgoal : c.goal flags kind tab = setPages flags kind n ((c.va + pageSize) % 2 ^ 64)
        ((c.pa + pageSize) % 2 ^ 64)
        (Function.update (leafAt c.state.mem tab) (vpn c.va) (pagePte c.pa flags kind)) := by
      rw [Cursor.goal, hn, setPages]
    have hn' : (c.fill p flags kind i).totalPageCnt = n := by rw [Cursor.fill, hn]; rfl
    rw [hgoal, ← hleaf, Cursor.goal, hn']
    rfl

/-- The `for` loop keeps the tree and the goal. -/
lemma fillEntries_spec (hp : tab 3 k = some p) (i : ℕ) (c : Cursor)
    (h : Mapped getPages tables B root c.state tab)
    (hv : i < 512 → vpn c.va = 512 * k + i) (hc : i < 512 → 0 < c.totalPageCnt) :
    Mapped getPages tables B root (fillEntries p flags kind i c).state tab ∧
      (fillEntries p flags kind i c).goal flags kind tab = c.goal flags kind tab ∧
      (fillEntries p flags kind i c).state.taken = c.state.taken := by
  induction i, c using fillEntries.induct p flags kind with
  | case1 i c hi c' h0 =>
    simp only [c'] at h0
    rw [fillEntries, if_pos hi]
    simp only [if_pos h0]
    obtain ⟨h', hg⟩ := fill_spec flags kind h hp (hv hi) hi (hc hi)
    exact ⟨h', hg, rfl⟩
  | case2 i c hi c' h0 ih =>
    simp only [c'] at h0 ih
    rw [fillEntries, if_pos hi]
    simp only [if_neg h0]
    obtain ⟨h', hg⟩ := fill_spec flags kind h hp (hv hi) hi (hc hi)
    have hnext : i + 1 < 512 → vpn (c.fill p flags kind i).va = 512 * k + (i + 1) := by
      intro hlt
      have hvi := hv hi
      have hbound := vpn_lt c.va
      have hfill : (c.fill p flags kind i).va = (c.va + pageSize) % 2 ^ 64 := rfl
      rw [hfill, vpn_next, hvi]
      omega
    obtain ⟨h'', hg', ht⟩ := ih h' hnext fun _ => Nat.pos_of_ne_zero h0
    exact ⟨h'', hg'.trans hg, ht⟩
  | case3 i c hi =>
    rw [fillEntries, if_neg hi]
    exact ⟨h, rfl, rfl⟩

/-- The walk at the head of the `while` loop reaches the last-level table of the current page. -/
lemma walk_spec (hf : Fresh getPages tables) (h : Mapped getPages tables B root s tab) {va : ℕ}
    {l1 l2 l3 : ℕ} {s1 s2 s3 : State}
    (e1 : bugOnRet (getNextPtp getPages root .L0 va true s) = .ok (l1, s1))
    (e2 : bugOnRet (getNextPtp getPages l1 .L1 va true s1) = .ok (l2, s2))
    (e3 : bugOnRet (getNextPtp getPages l2 .L2 va true s2) = .ok (l3, s3)) :
    ∃ tab', Mapped getPages tables B root s3 tab' ∧ tab' 3 (key .L2 va) = some l3 ∧
      leafAt s3.mem tab' = leafAt s.mem tab := by
  obtain ⟨tab1, h1, ht1, hl1⟩ := h.next hf (by decide) h.root_page e1
  have ht1' : tab1 (depth .L1) (key .L1 va / 512) = some l1 := by rw [key_L1_div]; exact ht1
  obtain ⟨tab2, h2, ht2, hl2⟩ := h1.next hf (by decide) ht1' e2
  have ht2' : tab2 (depth .L2) (key .L2 va / 512) = some l2 := by rw [key_L2_div]; exact ht2
  obtain ⟨tab3, h3, ht3, hl3⟩ := h2.next hf (by decide) ht2' e3
  exact ⟨tab3, h3, ht3, hl3.trans (hl2.trans hl1)⟩

/-- The inner loop starts where the walk ended. -/
lemma start_eq (va : ℕ) : vpn va = 512 * key .L2 va + getIndex .L3 va := by
  have hdiv := key_L3_div va
  rw [getIndex_eq, ← hdiv, ← key_L3]
  omega

/-- The `while` loop: if it returns, the tree holds what the call has to produce. -/
lemma mapLoop_spec (hf : Fresh getPages tables) (c : Cursor)
    (h : Mapped getPages tables B root c.state tab)
    (hr : mapLoop getPages root flags kind c = .ok s') :
    ∃ tab', Mapped getPages tables B root s' tab' ∧ leafAt s'.mem tab' = c.goal flags kind tab := by
  induction hn : c.totalPageCnt using Nat.strong_induction_on generalizing c tab with
  | _ n ih =>
    rw [mapLoop] at hr
    split at hr
    · next hpos =>
      obtain ⟨⟨l1, s1⟩, e1, hr⟩ := bind_eq_ok.1 hr
      obtain ⟨⟨l2, s2⟩, e2, hr⟩ := bind_eq_ok.1 hr
      obtain ⟨⟨l3, s3⟩, e3, hr⟩ := bind_eq_ok.1 hr
      obtain ⟨tab1, h1, ht, hl⟩ := walk_spec hf h e1 e2 e3
      obtain ⟨h2, hg, -⟩ := fillEntries_spec flags kind ht (getIndex .L3 c.va)
        { c with state := s3 } h1 (fun _ => start_eq c.va) fun _ => hpos
      have hlt := fillEntries_lt l3 flags kind (c := { c with state := s3 }) (getIndex_lt .L3 c.va) hpos
      obtain ⟨tab', h', hgoal⟩ := ih _ (hn ▸ hlt) _ h2 hr rfl
      refine ⟨tab', h', hgoal.trans (hg.trans ?_)⟩
      rw [Cursor.goal, Cursor.goal, hl]
    · next hpos =>
      cases hr
      refine ⟨tab, h, ?_⟩
      have h0 : c.totalPageCnt = 0 := Nat.eq_zero_of_not_pos hpos
      rw [Cursor.goal, h0, setPages]

/-- How far the `for` loop gets. -/
lemma fillEntries_va (p flags : ℕ) (kind : PteKind) (i : ℕ) (c : Cursor) (hva : c.va < 2 ^ 64)
    (hc : i < 512 → 0 < c.totalPageCnt) :
    (fillEntries p flags kind i c).va =
      (c.va + pageSize * (c.totalPageCnt - (fillEntries p flags kind i c).totalPageCnt)) % 2 ^ 64 := by
  induction i, c using fillEntries.induct p flags kind with
  | case1 i c hi c' h0 =>
    simp only [c'] at h0
    have hcnt : c.totalPageCnt = 1 := by
      have := hc hi
      have hfill : (c.fill p flags kind i).totalPageCnt = c.totalPageCnt - 1 := rfl
      omega
    rw [fillEntries, if_pos hi]
    simp only [if_pos h0]
    have hcva : (c.fill p flags kind i).va = (c.va + pageSize) % 2 ^ 64 := rfl
    rw [h0, hcnt, hcva, Nat.sub_zero, Nat.mul_one]
  | case2 i c hi c' h0 ih =>
    simp only [c'] at h0 ih
    rw [fillEntries, if_pos hi]
    simp only [if_neg h0]
    have hle := fillEntries_le p flags kind (i + 1) (c.fill p flags kind i)
    have hcnt : (c.fill p flags kind i).totalPageCnt = c.totalPageCnt - 1 := rfl
    have hcva : (c.fill p flags kind i).va = (c.va + pageSize) % 2 ^ 64 := rfl
    have hpos := hc hi
    have hsub : c.totalPageCnt - (fillEntries p flags kind (i + 1) (c.fill p flags kind i)).totalPageCnt =
        c.totalPageCnt - 1 - (fillEntries p flags kind (i + 1) (c.fill p flags kind i)).totalPageCnt + 1 := by
      omega
    rw [ih (Nat.mod_lt _ (Nat.two_pow_pos _)) fun _ => Nat.pos_of_ne_zero h0, hcva, hcnt,
      Nat.mod_add_mod, hsub, Nat.mul_add, Nat.mul_one, Nat.add_assoc, Nat.add_comm pageSize]
  | case3 i c hi =>
    rw [fillEntries, if_neg hi, Nat.sub_self, Nat.mul_zero, Nat.add_zero, Nat.mod_eq_of_lt hva]

/-- Where a mapping of `n` pages from `va` on meets no block. -/
def Blocks.Avoids (B : Blocks) (va n : ℕ) : Prop :=
  ∀ j < n, ∀ l, B.entry (depth l) (key l (va + pageSize * j)) = none

/-- A path depends on the address modulo 2^64. -/
lemma key_mod (l : Level) (x : ℕ) : key l (x % 2 ^ 64) = key l x := by
  unfold key
  rw [Nat.mod_mod_of_dvd x (by norm_num)]

/-- The `while` loop returns if no block is in its way and there are pages enough. -/
lemma mapLoop_ok (hf : Fresh getPages tables) (c : Cursor) (hva : c.va < 2 ^ 64)
    (h : Mapped getPages tables B root c.state tab) (hb : B.Avoids c.va c.totalPageCnt)
    (hn : ∀ n < c.state.taken + 3 * c.totalPageCnt, getPages n ≠ 0) :
    ∃ s', mapLoop getPages root flags kind c = .ok s' ∧
      s'.taken ≤ c.state.taken + 3 * c.totalPageCnt := by
  induction hN : c.totalPageCnt using Nat.strong_induction_on generalizing c tab with
  | _ N ih =>
    subst hN
    rw [mapLoop]
    split
    · next hpos =>
      have hb0 : ∀ l, B.entry (depth l) (key l c.va) = none := hb 0 hpos
      obtain ⟨l1, s1, e1, hs1⟩ := h.next_ok hf (by decide) h.root_page (hb0 .L0) (hn _ (by omega))
      obtain ⟨tab1, h1, ht1, -⟩ := h.next hf (by decide) h.root_page e1
      have ht1' : tab1 (depth .L1) (key .L1 c.va / 512) = some l1 := by rw [key_L1_div]; exact ht1
      obtain ⟨l2, s2, e2, hs2⟩ := h1.next_ok hf (by decide) ht1' (hb0 .L1) (hn _ (by omega))
      obtain ⟨tab2, h2, ht2, -⟩ := h1.next hf (by decide) ht1' e2
      have ht2' : tab2 (depth .L2) (key .L2 c.va / 512) = some l2 := by rw [key_L2_div]; exact ht2
      obtain ⟨l3, s3, e3, hs3⟩ := h2.next_ok hf (by decide) ht2' (hb0 .L2) (hn _ (by omega))
      obtain ⟨tab3, h3, ht3, -⟩ := walk_spec hf h e1 e2 e3
      simp only [e1, e2, e3, ok_bind]
      obtain ⟨h4, -, ht⟩ := fillEntries_spec flags kind ht3 (getIndex .L3 c.va)
        { c with state := s3 } h3 (fun _ => start_eq c.va) fun _ => hpos
      have hlt := fillEntries_lt l3 flags kind (c := { c with state := s3 }) (getIndex_lt .L3 c.va) hpos
      have hva' := fillEntries_va l3 flags kind (getIndex .L3 c.va) { c with state := s3 } hva
        fun _ => hpos
      simp only [] at ht hlt hva'
      -- the cursor after the inner loop
      obtain ⟨c', hc'⟩ : ∃ x, x = fillEntries l3 flags kind (getIndex .L3 c.va) { c with state := s3 } :=
        ⟨_, rfl⟩
      rw [← hc'] at h4 ht hlt hva' ⊢
      have hb' : B.Avoids c'.va c'.totalPageCnt := by
        intro j hj l
        have hkey : key l (c'.va + pageSize * j) =
            key l (c.va + pageSize * (c.totalPageCnt - c'.totalPageCnt + j)) := by
          rw [hva', ← key_mod, Nat.mod_add_mod, key_mod, Nat.mul_add, Nat.add_assoc]
        rw [hkey]
        exact hb _ (by omega) l
      have hlt' : c'.va < 2 ^ 64 := by rw [hva']; exact Nat.mod_lt _ (Nat.two_pow_pos _)
      obtain ⟨s', er, hs'⟩ := ih _ hlt c' hlt' h4 hb' (fun n hlt2 => hn n (by omega)) rfl
      exact ⟨s', er, by omega⟩
    · exact ⟨c.state, rfl, Nat.le_add_right _ _⟩

end Loops

/-- A call of `map_range_in_pgtbl_kernel` or `map_range_in_pgtbl_user`. -/
structure Call where
  kind : PteKind
  va : ℕ
  pa : ℕ
  len : ℕ
  flags : ℕ
  rss : Option ℤ
deriving DecidableEq, Repr

/-- Execute a call on the table at `root`. -/
def Call.exec (getPages : ℕ → ℕ) (root : ℕ) (c : Call) (s : State) : Except Fault State :=
  match c.kind with
  | .userPte => mapRangeInPgtblUser getPages root c.va c.pa c.len c.flags c.rss s
  | .kernelPte => mapRangeInPgtblKernel getPages root c.va c.pa c.len c.flags s

/-- A sequence of calls on the table at `root`. -/
def runCalls (getPages : ℕ → ℕ) (root : ℕ) : List Call → State → Except Fault State
  | [], s => .ok s
  | c :: cs, s => c.exec getPages root s >>= runCalls getPages root cs

/-- What a call does to the last-level entries. -/
def Call.setLeaves (c : Call) (f : ℕ → ℕ) : ℕ → ℕ :=
  setPages c.flags c.kind (pageCnt c.len) c.va c.pa f

section Calls

variable {getPages : ℕ → ℕ} {tables : Set ℕ} {B : Blocks} {root : ℕ} {s s' : State}
  {tab : ℕ → ℕ → Option ℕ} {c : Call} {cs : List Call}

/-- The two variants differ in the kind and the counter. -/
lemma Call.exec_eq (getPages : ℕ → ℕ) (root : ℕ) (c : Call) (s : State) : ∃ rss,
    c.exec getPages root s = mapRangeInPgtblCommon getPages root c.va c.pa c.len c.flags c.kind
      { s with rss := rss } := by
  unfold Call.exec
  cases c.kind with
  | userPte => exact ⟨c.rss, rfl⟩
  | kernelPte => exact ⟨none, rfl⟩

/-- A call that returns has mapped its pages and nothing else. -/
lemma Call.exec_spec (hf : Fresh getPages tables) (h : Mapped getPages tables B root s tab)
    (hr : c.exec getPages root s = .ok s') :
    c.va % 4096 = 0 ∧ ∃ tab', Mapped getPages tables B root s' tab' ∧
      leafAt s'.mem tab' = c.setLeaves (leafAt s.mem tab) := by
  obtain ⟨rss, e⟩ := c.exec_eq getPages root s
  rw [e, mapRangeInPgtblCommon] at hr
  split at hr
  · cases hr
  · split at hr
    · cases hr
    · next hal =>
      refine ⟨not_not.1 hal, ?_⟩
      exact mapLoop_spec c.flags c.kind hf ⟨c.va, c.pa, pageCnt c.len, { s with rss := rss }⟩
        { toTree := h.toTree, known := h.known } hr

/-- A call returns if no block is in its way and there are pages enough. -/
lemma Call.exec_ok (hf : Fresh getPages tables) (h : Mapped getPages tables B root s tab)
    (hal : c.va % 4096 = 0) (hva : c.va < 2 ^ 64) (hb : B.Avoids c.va (pageCnt c.len))
    (hn : ∀ n < s.taken + 3 * pageCnt c.len, getPages n ≠ 0) :
    ∃ s', c.exec getPages root s = .ok s' ∧ s'.taken ≤ s.taken + 3 * pageCnt c.len := by
  obtain ⟨rss, e⟩ := c.exec_eq getPages root s
  have hroot : root ≠ 0 := (h.page h.root_eq).1.ne'
  have hal' : ¬ c.va % pageSize ≠ 0 := not_not.2 hal
  rw [e, mapRangeInPgtblCommon, if_neg hroot, if_neg hal']
  exact mapLoop_ok c.flags c.kind hf ⟨c.va, c.pa, pageCnt c.len, { s with rss := rss }⟩ hva
    { toTree := h.toTree, known := h.known } hb hn

/-- A sequence of calls that all return. -/
lemma runCalls_spec (hf : Fresh getPages tables) (h : Mapped getPages tables B root s tab)
    (hr : runCalls getPages root cs s = .ok s') :
    (∀ c ∈ cs, c.va % 4096 = 0) ∧ ∃ tab', Mapped getPages tables B root s' tab' ∧
      leafAt s'.mem tab' = cs.foldl (fun f c => c.setLeaves f) (leafAt s.mem tab) := by
  induction cs generalizing s tab with
  | nil =>
    cases hr
    exact ⟨by simp, tab, h, rfl⟩
  | cons c cs ih =>
    obtain ⟨s1, e, hr⟩ := bind_eq_ok.1 hr
    obtain ⟨hal, tab1, h1, hl1⟩ := Call.exec_spec hf h e
    obtain ⟨hals, tab2, h2, hl2⟩ := ih h1 hr
    refine ⟨List.forall_mem_cons.2 ⟨hal, hals⟩, tab2, h2, ?_⟩
    rw [hl2, hl1, List.foldl_cons]

/-- A sequence of calls returns if no block is in its way and there are pages enough. -/
lemma runCalls_ok (cs : List Call) (hf : Fresh getPages tables) (h : Mapped getPages tables B root s tab)
    (hc : ∀ c ∈ cs, c.va % 4096 = 0 ∧ c.va < 2 ^ 64 ∧ B.Avoids c.va (pageCnt c.len))
    (hn : ∀ n < s.taken + 3 * (cs.map fun c => pageCnt c.len).sum, getPages n ≠ 0) :
    ∃ s', runCalls getPages root cs s = .ok s' := by
  induction cs generalizing s tab with
  | nil => exact ⟨s, rfl⟩
  | cons c cs ih =>
    obtain ⟨⟨hal, hva, hb⟩, hcs⟩ := List.forall_mem_cons.1 hc
    rw [List.map_cons, List.sum_cons] at hn
    obtain ⟨s1, e, ht⟩ := Call.exec_ok hf h hal hva hb fun n hlt => hn n (by omega)
    obtain ⟨-, tab1, h1, -⟩ := Call.exec_spec hf h e
    rw [runCalls, e, ok_bind]
    exact ih h1 hcs fun n hlt => hn n (by omega)

/-- The tree of a table that consists of its root page alone. -/
def rootOnly (root : ℕ) : ℕ → ℕ → Option ℕ := addPage (fun _ _ => none) 0 0 root

/-- A zero root page is an empty page table. -/
lemma Mapped.zero (hroot : IsPage root) (hzero : ∀ x, root ≤ x → x < root + 4096 → s.mem x = 0) :
    Mapped getPages {root} .empty root s (rootOnly root) := by
  have hpage : ∀ {d k p}, rootOnly root d k = some p → d = 0 ∧ k = 0 ∧ p = root := by
    intro d k p h
    rcases addPage_eq_some h with ⟨rfl, rfl, rfl⟩ | ⟨-, h'⟩
    · exact ⟨rfl, rfl, rfl⟩
    · cases h'
  have hent : ∀ e, ent s.mem root (e % 512) = 0 := by
    intro e
    apply Mem.load_eq_zero
    intro x h1 h2
    unfold entAddr at h1 h2
    exact hzero x (by omega) (by omega)
  constructor
  case known =>
    intro d k p h
    obtain ⟨-, -, rfl⟩ := hpage h
    exact .inl rfl
  constructor
  case root_eq => exact addPage_self
  case page =>
    intro d k p h
    obtain ⟨-, -, rfl⟩ := hpage h
    exact hroot
  case inj =>
    intro d k d' k' p h h'
    obtain ⟨rfl, rfl, -⟩ := hpage h
    obtain ⟨rfl, rfl, -⟩ := hpage h'
    exact ⟨rfl, rfl⟩
  case parent =>
    intro d e q h
    obtain ⟨hd, -⟩ := hpage h
    cases hd
  case child =>
    intro d e p q hd hp hq
    obtain ⟨hd', -⟩ := hpage hq
    cases hd'
  case empty =>
    intro d e p hd hp hq
    obtain ⟨-, -, rfl⟩ := hpage hp
    exact hent e
  case block =>
    intro d e b hb
    cases hb

/-- Nothing is mapped by the root alone. -/
lemma leafAt_rootOnly (m : Mem) (root : ℕ) : leafAt m (rootOnly root) = fun _ => 0 := rfl

end Calls

end KingdoKernel.PageTable
