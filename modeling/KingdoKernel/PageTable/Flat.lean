import KingdoKernel.PageTable.Map

/-!
# The flat map

What a page table is for: a map from page numbers to leaves. A call sets the leaves of its pages and
leaves the others. `pgtbl_refines_flat` says that the four-level table behaves as this map: a query of any
address finds the leaf the map has for the page of the address, or fails if there is none.
-/

namespace KingdoKernel.PageTable
open BitField

/-- What a call installs for a page. -/
structure Leaf where
  pfn : ℕ
  flags : ℕ
  kind : PteKind
deriving DecidableEq, Repr

/-- The entry for a leaf: valid, a page, its frame number, the attributes of `set_pte_flags`. -/
def Leaf.pte (l : Leaf) : ℕ :=
  setPteFlags (l3Page.set (l3Page.set (l3Page.set 0 .isValid 1) .isPage 1) .pfn l.pfn) l.flags l.kind

/-- The leaves of a page table by page number. -/
abbrev FlatMap := ℕ → Option Leaf

/-- The map after a call: the pages from `va / 4096` on have the frames from `pa / 4096` on. -/
def Call.mapPages (c : Call) (f : FlatMap) : FlatMap := fun v =>
  if vpn c.va ≤ v ∧ v < vpn c.va + pageCnt c.len then
    some ⟨c.pa / 4096 + (v - vpn c.va), c.flags, c.kind⟩
  else f v

/-- The map after a sequence of calls on an empty table. -/
def flatMap (cs : List Call) : FlatMap := cs.foldl (fun f c => c.mapPages f) fun _ => none

/-- The range of the call is one of 48-bit addresses, as is the memory it is mapped to. -/
def Call.InBounds (c : Call) : Prop := c.va % 2 ^ 48 + c.len ≤ 2 ^ 48 ∧ c.pa + c.len ≤ 2 ^ 48

instance (c : Call) : Decidable c.InBounds := inferInstanceAs (Decidable (_ ∧ _))

/-- The last-level entries of a flat map. -/
def FlatMap.entries (f : FlatMap) : ℕ → ℕ := fun v => (f v).elim 0 Leaf.pte

/-- The entry of a page, as a leaf of the flat map. -/
lemma pagePte_eq (pa flags : ℕ) (kind : PteKind) :
    pagePte pa flags kind = Leaf.pte ⟨pa / 4096, flags, kind⟩ := by
  rw [pagePte, Nat.shiftRight_eq_div_pow]
  rfl

/-- A leaf as one of the entries the code writes. -/
lemma Leaf.pte_eq (l : Leaf) : l.pte = pagePte (4096 * l.pfn) l.flags l.kind := by
  rw [pagePte_eq, Nat.mul_div_cancel_left _ (by norm_num)]

/-- The pages of a range that does not wrap around are set to consecutive frames. -/
lemma setPages_eq (flags : ℕ) (kind : PteKind) (n va pa : ℕ) (f : ℕ → ℕ)
    (hva : vpn va + n ≤ 2 ^ 36) (hpa : pa + n * 4096 ≤ 2 ^ 64) :
    setPages flags kind n va pa f = fun v =>
      if vpn va ≤ v ∧ v < vpn va + n then Leaf.pte ⟨pa / 4096 + (v - vpn va), flags, kind⟩ else f v := by
  induction n generalizing va pa f with
  | zero =>
    funext v
    rw [setPages, if_neg (by omega)]
  | succ n ih =>
    rw [setPages, pagePte_eq]
    cases n with
    | zero =>
      funext v
      rw [setPages]
      by_cases hv : v = vpn va
      · subst hv
        rw [Function.update_self, if_pos (by omega), Nat.sub_self, Nat.add_zero]
      · rw [Function.update_of_ne hv, if_neg (by omega)]
    | succ n =>
      have hpa2 : pa + 4096 + (n + 1) * 4096 ≤ 2 ^ 64 := by omega
      have hnext : vpn ((va + pageSize) % 2 ^ 64) = vpn va + 1 := by
        rw [vpn_next]
        exact Nat.mod_eq_of_lt (by omega)
      have hpa' : (pa + pageSize) % 2 ^ 64 = pa + 4096 := by
        unfold pageSize
        exact Nat.mod_eq_of_lt (by omega)
      have hva2 : vpn ((va + pageSize) % 2 ^ 64) + (n + 1) ≤ 2 ^ 36 := by
        rw [hnext]
        omega
      rw [hpa', ih _ _ _ hva2 hpa2, hnext]
      funext v
      by_cases hv : v = vpn va
      · subst hv
        rw [if_neg (by omega), Function.update_self, if_pos (by omega), Nat.sub_self, Nat.add_zero]
      · rw [Function.update_of_ne hv]
        by_cases hin : vpn va ≤ v ∧ v < vpn va + (n + 1 + 1)
        · have hpfn : (pa + 4096) / 4096 + (v - (vpn va + 1)) = pa / 4096 + (v - vpn va) := by omega
          rw [if_pos (by omega), if_pos hin, hpfn]
        · rw [if_neg (by omega), if_neg hin]

/-- A range of at most `n` pages. -/
lemma pageCnt_le (len n : ℕ) (h : len ≤ 4096 * n) : pageCnt len ≤ n := by
  unfold pageCnt pageSize
  split <;> omega

/-- The pages of a range start inside it. -/
lemma lt_pageCnt (len i : ℕ) (h : i < pageCnt len) : 4096 * i < len := by
  unfold pageCnt pageSize at h
  split at h <;> omega

/-- A call does to the entries what it does to the flat map. -/
lemma Call.setLeaves_entries {c : Call} (hc : c.InBounds) (hal : c.va % 4096 = 0) (f : FlatMap) :
    c.setLeaves f.entries = (c.mapPages f).entries := by
  obtain ⟨hva, hpa⟩ := hc
  have hcnt : vpn c.va + pageCnt c.len ≤ 2 ^ 36 := by
    have h := pageCnt_le c.len (2 ^ 36 - vpn c.va) (by unfold vpn; omega)
    have hlt := vpn_lt c.va
    omega
  have hpages : pageCnt c.len ≤ 2 ^ 36 := by omega
  rw [Call.setLeaves, setPages_eq _ _ _ _ _ _ hcnt (by omega)]
  funext v
  unfold FlatMap.entries Call.mapPages
  by_cases hin : vpn c.va ≤ v ∧ v < vpn c.va + pageCnt c.len
  · rw [if_pos hin, if_pos hin, Option.elim_some]
  · rw [if_neg hin, if_neg hin]

/-- The entries after a sequence of calls are those of the flat map. -/
lemma foldl_setLeaves {cs : List Call} (hc : ∀ c ∈ cs, c.InBounds) (hal : ∀ c ∈ cs, c.va % 4096 = 0)
    (f : FlatMap) : cs.foldl (fun g c => c.setLeaves g) f.entries =
      FlatMap.entries (cs.foldl (fun g c => c.mapPages g) f) := by
  induction cs generalizing f with
  | nil => rfl
  | cons c cs ih =>
    obtain ⟨hc1, hc2⟩ := List.forall_mem_cons.1 hc
    obtain ⟨ha1, ha2⟩ := List.forall_mem_cons.1 hal
    rw [List.foldl_cons, List.foldl_cons, Call.setLeaves_entries hc1 ha1, ih hc2 ha2]

/-- The frame numbers of the leaves fit their field. -/
lemma foldl_mapPages_pfn {cs : List Call} (hc : ∀ c ∈ cs, c.InBounds) {f : FlatMap}
    (hf : ∀ v l, f v = some l → l.pfn < 2 ^ 36) {v : ℕ} {l : Leaf}
    (h : cs.foldl (fun g c => c.mapPages g) f v = some l) : l.pfn < 2 ^ 36 := by
  induction cs generalizing f with
  | nil => exact hf v l h
  | cons c cs ih =>
    obtain ⟨⟨-, hpa⟩, hc2⟩ := List.forall_mem_cons.1 hc
    refine ih hc2 (f := c.mapPages f) (fun w l' h' => ?_) h
    unfold Call.mapPages at h'
    split at h'
    · next hin =>
      cases h'
      have hlt := lt_pageCnt c.len (w - vpn c.va) (by omega)
      simp only []
      omega
    · exact hf w l' h'

/-- A table whose entries are those of a flat map answers queries as the flat map does. -/
lemma query_of_entries {m : Mem} {root : ℕ} {tab : ℕ → ℕ → Option ℕ} {f : FlatMap}
    (h : Tree .empty root m tab) (hl : leafAt m tab = f.entries)
    (hf : ∀ v l, f v = some l → l.pfn < 2 ^ 36) (x : ℕ) :
    match f (vpn x) with
    | some l => ∃ e, queryInPgtbl m root x = .ok (l.pfn * 4096 + x % 4096, e) ∧ m.load e 8 = l.pte
    | none => ∃ err < 0, queryInPgtbl m root x = .error err := by
  have hx : leafAt m tab (vpn x) = (f (vpn x)).elim 0 Leaf.pte := by rw [hl, FlatMap.entries]
  cases hv : f (vpn x) with
  | none =>
    rw [hv, Option.elim_none] at hx
    refine ⟨-enomem, by decide, query_none h rfl rfl ?_⟩
    rw [hx]
    exact isPteInvalid_zero
  | some l =>
    have hpfn := hf _ l hv
    rw [hv, Option.elim_some] at hx
    have hvalid : isPteInvalid (leafAt m tab (vpn x)) = false := by
      rw [hx, Leaf.pte_eq]
      exact pagePte_valid _ _ _
    obtain ⟨e, hq, he⟩ := query_leaf h hvalid
    refine ⟨e, ?_, by rw [he, hx]⟩
    have hpa : getPaddrInPte (leafAt m tab (vpn x)) = l.pfn * 4096 := by
      rw [hx, Leaf.pte_eq, getPaddrInPte_pagePte, Nat.mul_div_cancel_left _ (by norm_num),
        Nat.mod_eq_of_lt hpfn]
    rw [hq, hpa]

/-- For every sequence of calls on a zero root page that return, the page table refines the flat map:
for every address `x`, a query returns the frame of the leaf for the page of `x`, at the offset of `x`,
with an entry that holds the leaf, and a negative result if there is no leaf. -/
theorem pgtbl_refines_flat (getPages : ℕ → ℕ) (root : ℕ) (m : Mem) (cs : List Call) (s : State)
    (hroot : IsPage root) (hzero : ∀ a, root ≤ a → a < root + 4096 → m a = 0)
    (hf : Fresh getPages {root}) (hc : ∀ c ∈ cs, c.InBounds)
    (hr : runCalls getPages root cs ⟨m, 0, none⟩ = .ok s) (x : ℕ) :
    match flatMap cs (vpn x) with
    | some l => ∃ e, queryInPgtbl s.mem root x = .ok (l.pfn * 4096 + x % 4096, e) ∧
        s.mem.load e 8 = l.pte ∧ l3Page.get l.pte .isValid = 1 ∧ l3Page.get l.pte .isPage = 1 ∧
        l3Page.get l.pte .pfn = l.pfn
    | none => ∃ err < 0, queryInPgtbl s.mem root x = .error err := by
  obtain ⟨hal, tab, h, hl⟩ := runCalls_spec hf (.zero hroot hzero) hr
  have hempty : (fun _ => 0 : ℕ → ℕ) = FlatMap.entries fun _ => none := rfl
  rw [leafAt_rootOnly, hempty, foldl_setLeaves hc hal] at hl
  have hpfn : ∀ v l, flatMap cs v = some l → l.pfn < 2 ^ 36 :=
    fun v l hv => foldl_mapPages_pfn hc (f := fun _ => none) (fun _ _ h0 => by cases h0) hv
  have hq := query_of_entries h.toTree hl hpfn x
  cases hv : flatMap cs (vpn x) with
  | none =>
    have hv' : List.foldl (fun f c => c.mapPages f) (fun _ => none) cs (vpn x) = none := hv
    rw [hv'] at hq
    exact hq
  | some l =>
    have hv' : List.foldl (fun f c => c.mapPages f) (fun _ => none) cs (vpn x) = some l := hv
    rw [hv'] at hq
    obtain ⟨e, hq, he⟩ := hq
    refine ⟨e, hq, he, ?_, ?_, ?_⟩
    · rw [Leaf.pte_eq, pagePte_isValid]
    · rw [Leaf.pte_eq, pagePte_isPage]
    · rw [Leaf.pte_eq, pagePte_pfn, Nat.mul_div_cancel_left _ (by norm_num),
        Nat.mod_eq_of_lt (hpfn _ l hv)]

/-- Two calls that meet at the border of two last-level tables; the second one covers a page of the
first. -/
def borderCalls : List Call :=
  [⟨.userPte, 0x1FF000, 0x5000, 5000, vmrRead ||| vmrWrite, some 0⟩,
    ⟨.kernelPte, 0x200000, 0x9000, 4096, vmrRead ||| vmrExec, none⟩]

/-- The statement for two calls. -/
theorem pgtbl_refines_flat_border : ∃ s, runCalls (pagesFrom 9) 0x1000 borderCalls ⟨fun _ => 0, 0, none⟩ = .ok s ∧
    (∃ e, queryInPgtbl s.mem 0x1000 0x1FF123 = .ok (0x5123, e)) ∧
    (∃ e, queryInPgtbl s.mem 0x1000 0x200123 = .ok (0x9123, e)) ∧
    ∃ err < 0, queryInPgtbl s.mem 0x1000 0x201000 = .error err := by
  have hroot : IsPage 0x1000 := ⟨by decide, by decide⟩
  have hf : Fresh (pagesFrom 9) {0x1000} := pagesFrom_fresh (by decide) (by decide)
  have hzero : ∀ a, 0x1000 ≤ a → a < 0x1000 + 4096 → (fun _ => 0 : Mem) a = 0 := fun _ _ _ => rfl
  have hn : ∀ n < 9, pagesFrom 9 n ≠ 0 := by decide
  obtain ⟨s, hr⟩ := runCalls_ok borderCalls hf
    (Mapped.zero (s := ⟨fun _ => 0, 0, none⟩) hroot hzero)
    (by
      intro c hc
      refine ⟨?_, ?_, fun _ _ _ => rfl⟩
      · revert c; decide
      · revert c; decide)
    hn
  have hc : ∀ c ∈ borderCalls, c.InBounds := by decide
  refine ⟨s, hr, ?_, ?_, ?_⟩
  · obtain ⟨e, hq, -⟩ := pgtbl_refines_flat (pagesFrom 9) 0x1000 _ borderCalls s hroot hzero hf hc hr 0x1FF123
    exact ⟨e, hq⟩
  · obtain ⟨e, hq, -⟩ := pgtbl_refines_flat (pagesFrom 9) 0x1000 _ borderCalls s hroot hzero hf hc hr 0x200123
    exact ⟨e, hq⟩
  · exact pgtbl_refines_flat (pagesFrom 9) 0x1000 _ borderCalls s hroot hzero hf hc hr 0x201000

end KingdoKernel.PageTable
