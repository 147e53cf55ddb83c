import KingdoKernel.PageTable.Perm

/-!
# The counter behind `rss`

A sequence of calls of `map_range_in_pgtbl_user` that share one counter, `runRanges`. The counter is
bumped in `get_next_ptp` for a table page and in `map_range_in_pgtbl_common` for a leaf. `tablePages` and
`leafPages` are the table pages below the root and the valid leaves, both read off memory by walking the
table from its root. `Charged` is the invariant of the loops: every page that was taken is a table page,
and the counter has been charged for it and for every leaf written. `rss_counts`: where no page is mapped
twice, the counter is the size of both sets in bytes after each call.
-/

namespace KingdoKernel.PageTable
open BitField

/-- A call of `map_range_in_pgtbl_user`, without its counter. -/
structure Range where
  va : ℕ
  pa : ℕ
  len : ℕ
  flags : ℕ
deriving DecidableEq, Repr

namespace Range

/-- The call with a counter. -/
def call (r : Range) (rss : Option ℤ) : Call := ⟨.userPte, r.va, r.pa, r.len, r.flags, rss⟩

/-- The numbers of the pages that the call maps, bits 12 to 47 of their addresses. -/
def pages (r : Range) : List ℕ := (List.range (pageCnt r.len)).map fun i => (vpn r.va + i) % 2 ^ 36

end Range

/-- A sequence of calls on the table at `root` that are given the same counter. -/
def runRanges (getPages : ℕ → ℕ) (root : ℕ) : List Range → State → Except Fault State
  | [], s => .ok s
  | r :: rs, s =>
    mapRangeInPgtblUser getPages root r.va r.pa r.len r.flags s.rss s >>= runRanges getPages root rs

/-- The table page of depth `d` and key `k` that a walk from the root finds in memory. -/
def tableAt (m : Mem) (root : ℕ) : ℕ → ℕ → Option ℕ
  | 0, k => if k = 0 then some root else none
  | d + 1, k => do
    let p ← tableAt m root d (k / 512)
    let pte := ent m p (k % 512)
    if isPteInvalid pte = false ∧ isPteTable pte = true then some (physToVirt (getPaddrInPte pte))
    else none

/-- The table pages below the root. -/
def tablePages (m : Mem) (root : ℕ) : Set ℕ := {p | ∃ d < 3, ∃ k, tableAt m root (d + 1) k = some p}

/-- The page numbers with a valid entry in a table of level 3. -/
def leafPages (m : Mem) (root : ℕ) : Set ℕ :=
  {v | ∃ p, tableAt m root 3 (v / 512) = some p ∧ isPteInvalid (ent m p (v % 512)) = false}

variable {getPages : ℕ → ℕ} {root : ℕ} {s s' : State} {m : Mem} {tab : ℕ → ℕ → Option ℕ}
  {d k n p q va : ℕ} {l : Level} {rs : List Range}

/-! ## The walk and the tree -/

/-- How many tables a level can have. -/
lemma tableAt_lt (h : tableAt m root d k = some p) : k < 512 ^ d := by
  induction d generalizing k p with
  | zero =>
    rw [tableAt] at h
    split at h
    · next hk =>
      rw [hk]
      exact Nat.one_pos
    · cases h
  | succ d ih =>
    obtain ⟨p', h', -⟩ := Option.bind_eq_some_iff.1 h
    have hlt := ih h'
    rw [pow_succ]
    omega

/-- The walk finds the pages of the tree. -/
lemma Tree.tableAt_eq (h : Tree .empty root m tab) (hd : d ≤ 3) (hk : k < 512 ^ d) :
    tableAt m root d k = tab d k := by
  induction d generalizing k with
  | zero =>
    have hz : k = 0 := by omega
    rw [hz, h.root_eq]
    rfl
  | succ d ih =>
    have hk' : k / 512 < 512 ^ d := by
      rw [pow_succ] at hk
      omega
    rw [tableAt, ih (by omega) hk']
    cases hp : tab d (k / 512) with
    | none =>
      cases hq : tab (d + 1) k with
      | none => rfl
      | some q =>
        obtain ⟨p, hp'⟩ := h.parent hq
        rw [hp] at hp'
        cases hp'
    | some p =>
      cases hq : tab (d + 1) k with
      | none =>
        have he : ent m p (k % 512) = 0 := h.empty (by omega) hp hq
        rw [Option.bind_eq_bind, Option.bind_some, he]
        rfl
      | some q =>
        obtain ⟨hv, ht, ha⟩ := h.child (by omega) hp hq
        rw [Option.bind_eq_bind, Option.bind_some, if_pos ⟨hv, ht⟩, ha]

/-- The valid leaves of the tree. -/
lemma Tree.mem_leafPages (h : Tree .empty root m tab) {v : ℕ} :
    v ∈ leafPages m root ↔ v < 2 ^ 36 ∧ isPteInvalid (leafAt m tab v) = false := by
  constructor
  · rintro ⟨p, hp, hv⟩
    have hlt := tableAt_lt hp
    have hlt' : v < 2 ^ 36 := by
      norm_num at hlt
      omega
    rw [h.tableAt_eq le_rfl hlt] at hp
    rw [leafAt, hp]
    exact ⟨hlt', hv⟩
  · rintro ⟨hlt, hv⟩
    have hk : v / 512 < 512 ^ 3 := by
      norm_num
      omega
    cases hp : tab 3 (v / 512) with
    | none =>
      have hleaf : leafAt m tab v = 0 := by rw [leafAt, hp]
      rw [hleaf, isPteInvalid_zero] at hv
      cases hv
    | some p =>
      rw [leafAt, hp] at hv
      exact ⟨p, (h.tableAt_eq le_rfl hk).trans hp, hv⟩

/-! ## What is charged -/

/-- The counter after `n` leaves have been written. -/
structure Charged (getPages : ℕ → ℕ) (root : ℕ) (s : State) (tab : ℕ → ℕ → Option ℕ) (n : ℕ) : Prop
    extends Mapped getPages {root} .empty root s tab where
  used : ∀ i < s.taken, ∃ d k, d < 3 ∧ k < 512 ^ (d + 1) ∧ tab (d + 1) k = some (getPages i)
  rss : s.rss = some ((pageSize * (s.taken + n) : ℕ) : ℤ)

/-- How many paths to a level there are. -/
lemma key_lt (hd : depth l < 3) (va : ℕ) : key l va < 512 ^ (depth l + 1) := by
  unfold key
  cases l with
  | L0 =>
    rw [indexShift_L0]
    norm_num [depth]
    omega
  | L1 =>
    rw [indexShift_L1]
    norm_num [depth]
    omega
  | L2 =>
    rw [indexShift_L2]
    norm_num [depth]
    omega
  | L3 => exact absurd hd (by decide)

namespace Charged

/-- One level of the walk: a page that is taken is charged and becomes a table page. -/
lemma next (hf : Fresh getPages {root}) (h : Charged getPages root s tab n) (hd : depth l < 3)
    (hp : tab (depth l) (key l va / 512) = some p)
    (hr : bugOnRet (getNextPtp getPages p l va true s) = .ok (q, s')) :
    ∃ tab', Charged getPages root s' tab' n ∧ tab' (depth l + 1) (key l va) = some q := by
  obtain ⟨hq, rfl⟩ | ⟨hq, hb, hn, rfl, rfl⟩ := h.toMapped.next_cases hf hd hp hr
  · exact ⟨tab, h, hq⟩
  refine ⟨_, ⟨h.toMapped.grow hf hd hp hq hb hn, ?_, ?_⟩, addPage_self⟩
  · intro i hi
    rcases Nat.lt_succ_iff_lt_or_eq.1 hi with hi | rfl
    · obtain ⟨d, k, hd', hk, ht⟩ := h.used i hi
      refine ⟨d, k, hd', hk, ?_⟩
      rw [addPage_of_ne, ht]
      rintro ⟨e, rfl⟩
      rw [e, hq] at ht
      cases ht
    · exact ⟨depth l, key l va, hd, key_lt hd va, addPage_self⟩
  · have hsum : pageSize * (s.taken + n) + pageSize = pageSize * (s.taken + 1 + n) := by ring
    rw [State.grow, h.rss, ← hsum]
    rfl

/-- The walk at the head of the `while` loop. -/
lemma walk (hf : Fresh getPages {root}) (h : Charged getPages root s tab n) {l1 l2 l3 : ℕ}
    {s1 s2 s3 : State} (e1 : bugOnRet (getNextPtp getPages root .L0 va true s) = .ok (l1, s1))
    (e2 : bugOnRet (getNextPtp getPages l1 .L1 va true s1) = .ok (l2, s2))
    (e3 : bugOnRet (getNextPtp getPages l2 .L2 va true s2) = .ok (l3, s3)) :
    ∃ tab', Charged getPages root s3 tab' n ∧ tab' 3 (key .L2 va) = some l3 := by
  obtain ⟨tab1, h1, ht1⟩ := h.next hf (by decide) h.root_page e1
  have ht1' : tab1 (depth .L1) (key .L1 va / 512) = some l1 := by rw [key_L1_div]; exact ht1
  obtain ⟨tab2, h2, ht2⟩ := h1.next hf (by decide) ht1' e2
  have ht2' : tab2 (depth .L2) (key .L2 va / 512) = some l2 := by rw [key_L2_div]; exact ht2
  exact h2.next hf (by decide) ht2' e3

/-- One pass of the `for` loop: the leaf is charged. -/
lemma fill {c : Cursor} {i : ℕ} (h : Charged getPages root c.state tab n) (flags : ℕ) (kind : PteKind)
    (hp : tab 3 k = some p) (hv : vpn c.va = 512 * k + i) (hi : i < 512) (hc : 0 < c.totalPageCnt) :
    Charged getPages root (c.fill p flags kind i).state tab (n + 1) := by
  refine ⟨(fill_spec flags kind h.toMapped hp hv hi hc).1, h.used, ?_⟩
  have hsum : pageSize * (c.state.taken + n) + pageSize = pageSize * (c.state.taken + (n + 1)) := by ring
  have htaken : (c.fill p flags kind i).state.taken = c.state.taken := rfl
  have hrss : (c.fill p flags kind i).state.rss = c.state.rss.map (· + (pageSize : ℤ)) := rfl
  rw [hrss, htaken, h.rss, ← hsum]
  rfl

/-- The `for` loop: the leaves charged and the pages left keep their sum. -/
lemma fillEntries (flags : ℕ) (kind : PteKind) (hp : tab 3 k = some p) (i : ℕ) (c : Cursor) (n : ℕ)
    (h : Charged getPages root c.state tab n) (hv : i < 512 → vpn c.va = 512 * k + i)
    (hc : i < 512 → 0 < c.totalPageCnt) :
    ∃ n', Charged getPages root (PageTable.fillEntries p flags kind i c).state tab n' ∧
      n' + (PageTable.fillEntries p flags kind i c).totalPageCnt = n + c.totalPageCnt := by
  induction i, c using fillEntries.induct p flags kind generalizing n with
  | case1 i c hi c' h0 =>
    simp only [c'] at h0
    rw [PageTable.fillEntries, if_pos hi]
    simp only [if_pos h0]
    have hpos := hc hi
    have hcnt : (c.fill p flags kind i).totalPageCnt = c.totalPageCnt - 1 := rfl
    exact ⟨n + 1, h.fill flags kind hp (hv hi) hi hpos, by omega⟩
  | case2 i c hi c' h0 ih =>
    simp only [c'] at h0 ih
    rw [PageTable.fillEntries, if_pos hi]
    simp only [if_neg h0]
    have hpos := hc hi
    have hcnt : (c.fill p flags kind i).totalPageCnt = c.totalPageCnt - 1 := rfl
    have hnext : i + 1 < 512 → vpn (c.fill p flags kind i).va = 512 * k + (i + 1) := by
      intro hlt
      have hvi := hv hi
      have hbound := vpn_lt c.va
      have hfill : (c.fill p flags kind i).va = (c.va + pageSize) % 2 ^ 64 := rfl
      rw [hfill, vpn_next, hvi]
      omega
    obtain ⟨n', h', hn'⟩ := ih (n + 1) (h.fill flags kind hp (hv hi) hi hpos) hnext
      fun _ => Nat.pos_of_ne_zero h0
    exact ⟨n', h', by omega⟩
  | case3 i c hi =>
    rw [PageTable.fillEntries, if_neg hi]
    exact ⟨n, h, rfl⟩

/-- The `while` loop charges the counter for every page of the range. -/
lemma mapLoop (hf : Fresh getPages {root}) (flags : ℕ) (kind : PteKind) (c : Cursor) (n : ℕ)
    (h : Charged getPages root c.state tab n)
    (hr : PageTable.mapLoop getPages root flags kind c = .ok s') :
    ∃ tab', Charged getPages root s' tab' (n + c.totalPageCnt) := by
  induction hN : c.totalPageCnt using Nat.strong_induction_on generalizing c tab n with
  | _ N ih =>
    rw [PageTable.mapLoop] at hr
    split at hr
    · next hpos =>
      obtain ⟨⟨l1, s1⟩, e1, hr⟩ := bind_eq_ok.1 hr
      obtain ⟨⟨l2, s2⟩, e2, hr⟩ := bind_eq_ok.1 hr
      obtain ⟨⟨l3, s3⟩, e3, hr⟩ := bind_eq_ok.1 hr
      obtain ⟨tab1, h1, ht⟩ := h.walk hf e1 e2 e3
      obtain ⟨n', h2, hn'⟩ := h1.fillEntries flags kind ht (getIndex .L3 c.va) { c with state := s3 } n
        (fun _ => start_eq c.va) fun _ => hpos
      have hlt := fillEntries_lt l3 flags kind (c := { c with state := s3 }) (getIndex_lt .L3 c.va) hpos
      obtain ⟨tab', h'⟩ := ih _ (hN ▸ hlt) _ n' h2 hr rfl
      rw [hn', hN] at h'
      exact ⟨tab', h'⟩
    · next hpos =>
      cases hr
      have h0 : N = 0 := by omega
      rw [h0]
      exact ⟨tab, h⟩

/-- The table pages below the root are the pages that were taken. -/
lemma tablePages_eq (h : Charged getPages root s tab n) :
    tablePages s.mem root = getPages '' (Finset.range s.taken : Set ℕ) := by
  ext p
  constructor
  · rintro ⟨d, hd, k, hk⟩
    rw [h.tableAt_eq hd (tableAt_lt hk)] at hk
    rcases h.known hk with hp | ⟨i, hi, e⟩
    · -- the root page is no page below the root
      obtain ⟨hz, -⟩ := h.inj hk (hp ▸ h.root_eq)
      cases hz
    · exact ⟨i, Finset.mem_coe.2 (Finset.mem_range.2 hi), e⟩
  · rintro ⟨i, hi, rfl⟩
    obtain ⟨d, k, hd, hk, ht⟩ := h.used i (Finset.mem_range.1 (Finset.mem_coe.1 hi))
    exact ⟨d, hd, k, (h.tableAt_eq hd hk).trans ht⟩

/-- No page was taken twice. -/
lemma ncard_tablePages (hf : Fresh getPages {root}) (h : Charged getPages root s tab n) :
    (tablePages s.mem root).ncard = s.taken := by
  have hne : ∀ i < s.taken, getPages i ≠ 0 := by
    intro i hi
    obtain ⟨d, k, -, -, ht⟩ := h.used i hi
    exact (h.page ht).1.ne'
  have hinj : Set.InjOn getPages (Finset.range s.taken : Set ℕ) := by
    intro i hi j hj e
    rw [Finset.coe_range, Set.mem_Iio] at hi hj
    rcases Nat.lt_trichotomy i j with hlt | heq | hlt
    · exact absurd e (hf.notAgain i j hlt (hne j hj))
    · exact heq
    · exact absurd e.symm (hf.notAgain j i hlt (hne i hi))
  rw [h.tablePages_eq, hinj.ncard_image, Set.ncard_coe_finset, Finset.card_range]

end Charged

/-! ## Sequences of calls -/

/-- The pages of a range are those its call covers. -/
lemma Range.mem_pages {r : Range} {v : ℕ} (rss : Option ℤ) : v ∈ r.pages ↔ (r.call rss).Covers v := by
  rw [Range.pages, List.mem_map]
  constructor
  · rintro ⟨i, hi, e⟩
    exact ⟨i, List.mem_range.1 hi, e⟩
  · rintro ⟨i, hi, e⟩
    exact ⟨i, List.mem_range.2 hi, e⟩

/-- After a call the entries of its pages are valid and the others are as before. -/
lemma Call.valid_setLeaves (c : Call) (f : ℕ → ℕ) (v : ℕ) :
    isPteInvalid (c.setLeaves f v) = false ↔ c.Covers v ∨ isPteInvalid (f v) = false := by
  obtain ⟨h1, h2⟩ := setPages_covers c.flags c.kind (pageCnt c.len) c.va c.pa f v
  by_cases hc : c.Covers v
  · obtain ⟨a, ha⟩ := h1 hc
    rw [Call.setLeaves, ha]
    exact iff_of_true (pagePte_valid _ _ _) (.inl hc)
  · rw [Call.setLeaves, h2 hc]
    exact ⟨.inr, fun h => h.resolve_left hc⟩

/-- A call charges the counter for its pages and adds them to the leaves. -/
lemma Charged.range (hf : Fresh getPages {root}) (h : Charged getPages root s tab n) {r : Range}
    (hr : mapRangeInPgtblUser getPages root r.va r.pa r.len r.flags s.rss s = .ok s') :
    (∃ tab', Charged getPages root s' tab' (n + r.pages.length)) ∧
      leafPages s'.mem root = leafPages s.mem root ∪ {v | v ∈ r.pages} := by
  constructor
  · have hlen : r.pages.length = pageCnt r.len := by
      rw [Range.pages, List.length_map, List.length_range]
    rw [mapRangeInPgtblUser, mapRangeInPgtblCommon] at hr
    split at hr
    · cases hr
    · split at hr
      · cases hr
      · rw [hlen]
        exact h.mapLoop hf r.flags .userPte ⟨r.va, r.pa, pageCnt r.len, s⟩ n hr
  · have hr' : (r.call s.rss).exec getPages root s = .ok s' := hr
    obtain ⟨-, tab', h', hl⟩ := Call.exec_spec hf h.toMapped hr'
    ext v
    have hlt : v ∈ r.pages → v < 2 ^ 36 := by
      intro hv
      obtain ⟨i, -, e⟩ := List.mem_map.1 hv
      exact e ▸ Nat.mod_lt _ (Nat.two_pow_pos _)
    rw [Set.mem_union, h.toTree.mem_leafPages, h'.toTree.mem_leafPages, hl, Call.valid_setLeaves,
      ← Range.mem_pages]
    constructor
    · rintro ⟨hv, hm | hm⟩
      · exact .inr hm
      · exact .inl ⟨hv, hm⟩
    · rintro (⟨hv, hm⟩ | hm)
      · exact ⟨hv, .inr hm⟩
      · exact ⟨hlt hm, .inl hm⟩

/-- A sequence of calls. -/
lemma Charged.ranges (hf : Fresh getPages {root}) (h : Charged getPages root s tab n)
    (hr : runRanges getPages root rs s = .ok s') :
    (∃ tab', Charged getPages root s' tab' (n + (rs.flatMap Range.pages).length)) ∧
      leafPages s'.mem root = leafPages s.mem root ∪ {v | v ∈ rs.flatMap Range.pages} := by
  induction rs generalizing s tab n with
  | nil =>
    cases hr
    refine ⟨⟨tab, h⟩, ?_⟩
    ext v
    simp
  | cons r rs ih =>
    obtain ⟨s1, e, hr⟩ := bind_eq_ok.1 hr
    obtain ⟨⟨tab1, h1⟩, hl1⟩ := h.range hf e
    obtain ⟨⟨tab2, h2⟩, hl2⟩ := ih h1 hr
    rw [List.flatMap_cons, List.length_append, ← Nat.add_assoc]
    refine ⟨⟨tab2, h2⟩, ?_⟩
    rw [hl2, hl1, Set.union_assoc]
    ext v
    simp

/-- The calls of a sequence that returns return. -/
lemma runRanges_take (hr : runRanges getPages root rs s = .ok s') (i : ℕ) :
    ∃ t, runRanges getPages root (rs.take i) s = .ok t := by
  induction rs generalizing s i with
  | nil => exact ⟨s, by rw [List.take_nil, runRanges]⟩
  | cons r rs ih =>
    cases i with
    | zero => exact ⟨s, rfl⟩
    | succ i =>
      obtain ⟨s1, e, hr⟩ := bind_eq_ok.1 hr
      obtain ⟨t, ht⟩ := ih hr i
      refine ⟨t, ?_⟩
      rw [List.take_succ_cons, runRanges, e, ok_bind, ht]

/-- For every sequence of calls that return and map no page twice, on a zero root page and with a counter
that starts at zero: after each of the calls the counter is the size of the table pages below the root and
of the pages with a valid leaf. -/
theorem rss_counts (getPages : ℕ → ℕ) (root : ℕ) (m : Mem) (rs : List Range) (s : State)
    (hroot : IsPage root) (hzero : ∀ a, root ≤ a → a < root + 4096 → m a = 0)
    (hf : Fresh getPages {root}) (hnew : (rs.flatMap Range.pages).Nodup)
    (hr : runRanges getPages root rs ⟨m, 0, some 0⟩ = .ok s) (i : ℕ) :
    ∃ t, runRanges getPages root (rs.take i) ⟨m, 0, some 0⟩ = .ok t ∧
      t.rss = some (4096 * ((tablePages t.mem root).ncard + (leafPages t.mem root).ncard) : ℤ) := by
  obtain ⟨t, ht⟩ := runRanges_take hr i
  have hmapped : Mapped getPages {root} .empty root ⟨m, 0, some 0⟩ (rootOnly root) := .zero hroot hzero
  have hstart : Charged getPages root ⟨m, 0, some 0⟩ (rootOnly root) 0 :=
    ⟨hmapped, fun i hi => absurd hi (Nat.not_lt_zero i), rfl⟩
  have hempty : leafPages m root = ∅ := by
    ext v
    rw [hmapped.toTree.mem_leafPages, leafAt_rootOnly]
    exact iff_of_false (fun h => absurd h.2 (by decide : isPteInvalid 0 ≠ false)) (Set.notMem_empty v)
  obtain ⟨⟨tab, hc⟩, hl⟩ := hstart.ranges hf ht
  have hnodup : ((rs.take i).flatMap Range.pages).Nodup :=
    hnew.sublist ((List.take_sublist i rs).flatMap _)
  have hleaves : (leafPages t.mem root).ncard = ((rs.take i).flatMap Range.pages).length := by
    rw [hl, hempty, Set.empty_union, ← List.coe_toFinset, Set.ncard_coe_finset,
      List.toFinset_card_of_nodup hnodup]
  refine ⟨t, ht, ?_⟩
  rw [hc.rss, hc.ncard_tablePages hf, hleaves, Nat.zero_add]
  push_cast
  rfl

/-- A sequence of calls returns if there are pages enough. -/
lemma runRanges_ok (rs : List Range) (hf : Fresh getPages {root})
    (h : Mapped getPages {root} .empty root s tab) (hc : ∀ r ∈ rs, r.va % 4096 = 0 ∧ r.va < 2 ^ 64)
    (hn : ∀ n < s.taken + 3 * (rs.map fun r => pageCnt r.len).sum, getPages n ≠ 0) :
    ∃ s', runRanges getPages root rs s = .ok s' := by
  induction rs generalizing s tab with
  | nil => exact ⟨s, rfl⟩
  | cons r rs ih =>
    obtain ⟨⟨hal, hva⟩, hrs⟩ := List.forall_mem_cons.1 hc
    rw [List.map_cons, List.sum_cons] at hn
    obtain ⟨s1, e, ht⟩ := Call.exec_ok (c := r.call s.rss) hf h hal hva (fun _ _ _ => rfl)
      fun n hlt => hn n (by simp only [Range.call] at hlt; omega)
    obtain ⟨-, tab1, h1, -⟩ := Call.exec_spec hf h e
    have e' : mapRangeInPgtblUser getPages root r.va r.pa r.len r.flags s.rss s = .ok s1 := e
    rw [runRanges, e', ok_bind]
    exact ih h1 hrs fun n hlt => hn n (by simp only [Range.call] at ht; omega)

/-- Two ranges below one table of level 3, the second before the first. -/
def userRanges : List Range :=
  [⟨0x401000, 0x5000, 8192, vmrRead ||| vmrWrite⟩, ⟨0x400000, 0x7000, 4096, vmrRead ||| vmrExec⟩]

/-- The statement for two calls. -/
theorem rss_counts_user : (userRanges.flatMap Range.pages).Nodup ∧
    ∃ s, runRanges (pagesFrom 9) 0x1000 userRanges ⟨fun _ => 0, 0, some 0⟩ = .ok s ∧ ∀ i,
      ∃ t, runRanges (pagesFrom 9) 0x1000 (userRanges.take i) ⟨fun _ => 0, 0, some 0⟩ = .ok t ∧
        t.rss = some (4096 * ((tablePages t.mem 0x1000).ncard + (leafPages t.mem 0x1000).ncard) : ℤ) := by
  have hf : Fresh (pagesFrom 9) {0x1000} := pagesFrom_fresh (by decide) (by decide)
  have hpages : ∀ n < 9, pagesFrom 9 n ≠ 0 := by decide
  have hnew : (userRanges.flatMap Range.pages).Nodup := by decide
  obtain ⟨s, hr⟩ := runRanges_ok (s := ⟨fun _ => 0, 0, some 0⟩) userRanges hf
    (.zero ⟨by decide, by decide⟩ fun _ _ _ => rfl) (by decide) hpages
  exact ⟨hnew, s, hr, rss_counts (pagesFrom 9) 0x1000 _ userRanges s ⟨by decide, by decide⟩
    (fun _ _ _ => rfl) hf hnew hr⟩

end KingdoKernel.PageTable
