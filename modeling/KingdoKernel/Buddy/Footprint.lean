import KingdoKernel.Buddy.Run

/-!
# The descriptors that splitting and merging touch

`splitFootprint` and `mergeFootprint` list the descriptors that a call of `split_chunk` or `merge_chunk`
reads or writes, at every level of its recursion: the chunks themselves, their buddies, and the
neighbours in the free lists whose links `list_add` and `list_del` change. `splitChunk_local` and
`mergeChunk_local` say that nothing is missing: the call depends on no other descriptor and changes no
other one. `footprint_in_range`: in every state of every run all of them are descriptors of the array,
also the upper buddy, which the source does not check.
-/

namespace KingdoKernel.Buddy
open Tiles Tiles.Block

/-- The elements next to `p` in a list. -/
def neighbours (l : List ℕ) (p : ℕ) : List ℕ :=
  (l.take (l.idxOf p)).getLast?.toList ++ (l.drop (l.idxOf p + 1)).head?.toList

/-- The descriptors of `list_del(&page->node)`. -/
def listDelFootprint (l : List ℕ) (p : ℕ) : List ℕ := p :: neighbours l p

/-- The descriptors of `list_add(&page->node, &free_list)`. -/
def listAddFootprint (l : List ℕ) (p : ℕ) : List ℕ := p :: l.head?.toList

/-- The descriptors whose links `page_in_list` follows. -/
def pageInListFootprint (l : List ℕ) (p : ℕ) : List ℕ := l.takeWhile (· ≠ p)

/-- The descriptors of the end of `split_chunk`, which cuts a chunk in two of order `order`. -/
def cutFootprint (s : Buddy) (chunk order : ℕ) : List ℕ :=
  chunk :: listAddFootprint (s.freeLists order).freeList (chunk + buddyChunkPagesCount order)

/-- The descriptors of `split_chunk`. The head of an empty list is no descriptor, and stands here as the
one behind the array. -/
def splitFootprint (s : Buddy) (order : ℕ) : List ℕ :=
  if order < 1 ∨ buddyMaxOrder ≤ order then []
  else if (s.freeLists order).nrFree = 0 then
    s.splitFootprint (order + 1) ++
      match s.splitChunk (order + 1) with
      | .ok (some chunk, s') => s'.cutFootprint chunk (order - 1)
      | _ => []
  else
    match (s.freeLists order).freeList with
    | [] => [s.pageNum]
    | chunk :: cs =>
      listDelFootprint (chunk :: cs) chunk ++ (s.delFree order chunk).cutFootprint chunk (order - 1)
termination_by buddyMaxOrder - order

/-- The descriptors of `merge_chunk`. -/
def mergeFootprint (s : Buddy) (chunkOrigin : ℕ) : List ℕ :=
  let order := (s.pages chunkOrigin).order
  let freeList := (s.freeLists order).freeList
  chunkOrigin ::
    if s.pageNum ≤ chunkOrigin ∨ buddyMaxOrder ≤ order then []
    else if (s.freeLists order).nrFree = 0 ∨ order = buddyMaxOrder - 1 then []
    else
      let chunkMerge :=
        s.virtToPage (roundDown (s.pageToVirt chunkOrigin) (buddyChunkSize (order + 1)))
      let chunkBuddy :=
        if chunkMerge = some chunkOrigin then some (chunkOrigin + buddyChunkPagesCount order)
        else chunkMerge
      match chunkBuddy, chunkMerge with
      | some buddy, some merge =>
        buddy ::
          if s.pageNum ≤ buddy then []
          else if (s.pages buddy).allocated = 1 ∨ (s.pages buddy).order ≠ order then []
          else if buddy ∉ freeList then pageInListFootprint freeList buddy
          else
            pageInListFootprint freeList buddy ++ listDelFootprint freeList buddy ++
              merge :: mergeFootprint ((s.delFree order buddy).writeOrder merge (order + 1)) merge
      | _, _ => []
termination_by buddyMaxOrder - (s.pages chunkOrigin).order
decreasing_by
  simp only [writeOrder, setPage, Function.update_self]
  omega

/-- The descriptors that a call touches in `split_chunk` or `merge_chunk`. -/
def Op.footprint (s : Buddy) : Op → List ℕ
  | .getPages order => if (s.freeLists order).nrFree = 0 then s.splitFootprint (order + 1) else []
  | .freePages page => (s.writeAllocated page 0).mergeFootprint page

/-! ## Nothing else is touched -/

section Locality
variable {α β : Type} {T : Set ℕ} {o : ℕ → Page} {s s' : Buddy} {p k n c : ℕ}

/-- The states have everything in common but the descriptors outside `T`, which are those of `o` in the
second. -/
structure Agree (T : Set ℕ) (o : ℕ → Page) (s s' : Buddy) : Prop where
  startAddr : s'.startAddr = s.startAddr
  size : s'.size = s.size
  pageNum : s'.pageNum = s.pageNum
  freeLists : s'.freeLists = s.freeLists
  inside : ∀ p ∈ T, s'.pages p = s.pages p
  outside : ∀ p ∉ T, s'.pages p = o p

namespace Agree

/-- Writing the order of a page of `T` keeps the agreement. -/
lemma writeOrder (h : Agree T o s s') (hp : p ∈ T) : Agree T o (s.writeOrder p k) (s'.writeOrder p k) := by
  refine ⟨h.startAddr, h.size, h.pageNum, h.freeLists, fun q hq => ?_, fun q hq => ?_⟩
  · rw [pages_writeOrder, pages_writeOrder, h.inside p hp, h.inside q hq]
  · have hne : q ≠ p := fun e => hq (e ▸ hp)
    rw [pages_writeOrder, if_neg hne]
    exact h.outside q hq

/-- Adding a free chunk keeps the agreement. -/
lemma addFree (h : Agree T o s s') : Agree T o (s.addFree k p) (s'.addFree k p) := by
  refine ⟨h.startAddr, h.size, h.pageNum, ?_, h.inside, h.outside⟩
  rw [Buddy.addFree, Buddy.addFree, h.freeLists]

/-- Taking a free chunk out keeps the agreement. -/
lemma delFree (h : Agree T o s s') : Agree T o (s.delFree k p) (s'.delFree k p) := by
  refine ⟨h.startAddr, h.size, h.pageNum, ?_, h.inside, h.outside⟩
  rw [Buddy.delFree, Buddy.delFree, h.freeLists]

/-- States that agree have the same descriptor for an address. -/
lemma virtToPage (h : Agree T o s s') (a : ℕ) : s'.virtToPage a = s.virtToPage a := by
  rw [Buddy.virtToPage, Buddy.virtToPage, h.startAddr, h.size, h.pageNum]

/-- States that agree have the same address for a descriptor. -/
lemma pageToVirt (h : Agree T o s s') (p : ℕ) : s'.pageToVirt p = s.pageToVirt p := by
  rw [Buddy.pageToVirt, Buddy.pageToVirt, h.startAddr]

end Agree

/-- Two calls end in the same way, in states that agree. -/
inductive SameResult (T : Set ℕ) (o : ℕ → Page) :
    Except Fault (α × Buddy) → Except Fault (α × Buddy) → Prop where
  | error (e : Fault) :
    SameResult T o (.error e) (.error e)
  | ok {t t' : Buddy} (a : α) :
    Agree T o t t' →
    SameResult T o (.ok (a, t)) (.ok (a, t'))

/-- Calls with the same result, one after the other. -/
lemma SameResult.bind {x x' : Except Fault (α × Buddy)} {f f' : α × Buddy → Except Fault (β × Buddy)}
    (h : SameResult T o x x')
    (hf : ∀ a s s', x = .ok (a, s) → Agree T o s s' → SameResult T o (f (a, s)) (f' (a, s'))) :
    SameResult T o (x >>= f) (x' >>= f') := by
  cases h with
  | error e => exact .error e
  | ok a ha => exact hf a _ _ rfl ha

/-- Taking the first chunk of a list. -/
lemma takeFirst_local (h : Agree T o s s') : SameResult T o (s.takeFirst k) (s'.takeFirst k) := by
  rw [takeFirst, takeFirst, h.freeLists]
  cases (s.freeLists k).freeList with
  | nil => exact .error .wild
  | cons c cs => exact .ok c h.delFree

/-- What `takeFirst` has done when it returns. -/
lemma takeFirst_eq_ok {t : Buddy} (h : s.takeFirst k = .ok (c, t)) :
    ∃ cs, (s.freeLists k).freeList = c :: cs ∧ t = s.delFree k c := by
  rw [takeFirst] at h
  split at h
  · cases h
  · next c' cs hc =>
    cases h
    exact ⟨cs, hc, rfl⟩

/-- The end of `split_chunk`. -/
lemma cut_local (h : Agree T o s s') (hT : ∀ q ∈ s.cutFootprint c k, q ∈ T) :
    SameResult T o
      (do
        let t ← s.setOrder c k
        let t ← t.setOrder (c + buddyChunkPagesCount k) k
        pure (some c, t.addFree k (c + buddyChunkPagesCount k)))
      (do
        let t ← s'.setOrder c k
        let t ← t.setOrder (c + buddyChunkPagesCount k) k
        pure (some c, t.addFree k (c + buddyChunkPagesCount k))) := by
  have hc : c ∈ T := hT _ List.mem_cons_self
  have hb : c + buddyChunkPagesCount k ∈ T := hT _ (List.mem_cons_of_mem _ List.mem_cons_self)
  have h1 := h.writeOrder (k := k) hc
  have h2 := h1.writeOrder (k := k) hb
  rw [setOrder, setOrder, store, store, h.pageNum]
  split_ifs
  · rw [ok_bind, ok_bind, setOrder, setOrder, store, store, h1.pageNum]
    split_ifs
    · exact .ok _ h2.addFree
    · exact .error .wild
  · exact .error .wild

/-- `split_chunk` neither depends on a descriptor outside its footprint nor changes one. -/
theorem splitChunk_local (h : Agree T o s s') (hT : ∀ q ∈ s.splitFootprint k, q ∈ T) :
    SameResult T o (s.splitChunk k) (s'.splitChunk k) := by
  induction hn : buddyMaxOrder - k generalizing k with
  | zero =>
    rw [splitChunk.eq_def s, splitChunk.eq_def s', if_pos (by omega), if_pos (by omega)]
    exact .ok none h
  | succ n ih =>
    rw [splitChunk.eq_def s, splitChunk.eq_def s', h.freeLists]
    by_cases hr : k < 1 ∨ buddyMaxOrder ≤ k
    · rw [if_pos hr, if_pos hr]
      exact .ok none h
    rw [if_neg hr, if_neg hr]
    rw [splitFootprint, if_neg hr] at hT
    by_cases hz : (s.freeLists k).nrFree = 0
    · rw [if_pos hz] at hT
      rw [if_pos hz, if_pos hz]
      refine (ih (fun q hq => hT q (List.mem_append_left _ hq)) (by omega)).bind ?_
      intro a t t' e ht
      cases a with
      | none => exact .ok none ht
      | some c =>
        rw [e] at hT
        exact cut_local ht fun q hq => hT q (List.mem_append_right _ hq)
    · rw [if_neg hz] at hT
      rw [if_neg hz, if_neg hz]
      refine (takeFirst_local h).bind ?_
      intro c t t' e ht
      obtain ⟨cs, hc, rfl⟩ := takeFirst_eq_ok e
      rw [hc] at hT
      exact cut_local ht fun q hq => hT q (List.mem_append_right _ hq)

/-- `merge_chunk` neither depends on a descriptor outside its footprint nor changes one. -/
theorem mergeChunk_local (h : Agree T o s s') (hT : ∀ q ∈ s.mergeFootprint c, q ∈ T) :
    SameResult T o (s.mergeChunk c) (s'.mergeChunk c) := by
  induction hn : buddyMaxOrder - (s.pages c).order using Nat.strong_induction_on generalizing s s' c with
  | _ n ih =>
    have hc : c ∈ T := by
      rw [mergeFootprint] at hT
      exact hT c List.mem_cons_self
    rw [mergeChunk.eq_def s, mergeChunk.eq_def s', h.inside c hc, h.pageNum, h.freeLists, h.pageToVirt]
    simp only [h.virtToPage]
    rw [mergeFootprint] at hT
    dsimp only at hT
    replace hT := fun q hq => hT q (List.mem_cons_of_mem _ hq)
    by_cases h1 : s.pageNum ≤ c ∨ buddyMaxOrder ≤ (s.pages c).order
    · rw [if_pos h1, if_pos h1]
      exact .error .wild
    rw [if_neg h1] at hT
    rw [if_neg h1, if_neg h1]
    by_cases h2 : (s.freeLists (s.pages c).order).nrFree = 0 ∨ (s.pages c).order = buddyMaxOrder - 1
    · rw [if_pos h2, if_pos h2]
      exact .ok c h
    rw [if_neg h2] at hT
    rw [if_neg h2, if_neg h2]
    -- both calls find the same buddy and the same parent
    generalize s.virtToPage (roundDown (s.pageToVirt c) (buddyChunkSize ((s.pages c).order + 1))) =
      merge at hT ⊢
    generalize (if merge = some c then some (c + buddyChunkPagesCount (s.pages c).order) else merge) =
      buddy at hT ⊢
    cases buddy with
    | none => exact .ok c h
    | some b =>
      cases merge with
      | none => exact .ok c h
      | some m =>
        have hb : b ∈ T := hT b List.mem_cons_self
        dsimp only at hT ⊢
        rw [h.inside b hb]
        replace hT := fun q hq => hT q (List.mem_cons_of_mem _ hq)
        split_ifs at hT ⊢
        · exact .error .wild
        · exact .ok c h
        · have hm : m ∈ T := hT m (List.mem_append_right _ List.mem_cons_self)
          have hlt : buddyMaxOrder - ((s.pages c).order + 1) < n := by omega
          refine ih _ ?_ (h.delFree.writeOrder hm) ?_ rfl
          · rw [pages_writeOrder, if_pos rfl]
            exact hlt
          · exact fun q hq => hT q (List.mem_append_right _ (List.mem_cons_of_mem _ hq))
        · exact .error _

end Locality

/-! ## In range -/

variable {s : Buddy} {H : Set Block} {A : Set ℕ} {l : List ℕ} {p q k n c : ℕ}

/-- The neighbours of a node are nodes of the list. -/
lemma mem_of_mem_neighbours (h : q ∈ neighbours l p) : q ∈ l := by
  rcases List.mem_append.1 h with h | h
  · exact List.mem_of_mem_take (List.mem_of_getLast? (Option.mem_toList.1 h))
  · exact List.mem_of_mem_drop (List.mem_of_head? (Option.mem_toList.1 h))

/-- A listed chunk starts inside the region. -/
lemma Inv.listed_lt (h : Inv s H A) (hk : k < buddyMaxOrder) (hp : p ∈ (s.freeLists k).freeList) :
    p < s.pageNum :=
  h.start_lt (b := ⟨p, k⟩) (.inl ⟨hk, hp⟩)

/-- Taking a chunk out of its list touches descriptors of the region only. -/
lemma Inv.listDelFootprint_lt (h : Inv s H A) (hk : k < buddyMaxOrder)
    (hp : p ∈ (s.freeLists k).freeList) :
    ∀ q ∈ listDelFootprint (s.freeLists k).freeList p, q < s.pageNum := by
  intro q hq
  rcases List.mem_cons.1 hq with rfl | hq
  · exact h.listed_lt hk hp
  · exact h.listed_lt hk (mem_of_mem_neighbours hq)

/-- A chunk that is cut ends inside the region. -/
lemma Inv.cutFootprint_lt (h : Inv s (insert ⟨c, k + 1⟩ H) A) :
    ∀ q ∈ s.cutFootprint c k, q < s.pageNum := by
  have hmem : (⟨c, k + 1⟩ : Block) ∈ s.freeBlocks ∪ insert ⟨c, k + 1⟩ H :=
    .inr (Set.mem_insert _ _)
  have hk : k + 1 < buddyMaxOrder := h.top _ (Set.mem_insert _ _)
  have hend : c + 2 ^ (k + 1) ≤ s.pageNum := h.end_le hmem
  have hpos : 0 < 2 ^ k := by positivity
  rw [pow_succ] at hend
  intro q hq
  rcases List.mem_cons.1 hq with rfl | hq
  · omega
  rcases List.mem_cons.1 hq with rfl | hq
  · rw [buddyChunkPagesCount]
    omega
  · exact h.listed_lt (Nat.lt_of_succ_lt hk) (List.mem_of_head? (Option.mem_toList.1 hq))

/-- The recursion of `split_chunk` stays inside the array. -/
lemma Inv.splitFootprint_lt (h : Inv s H A) (hkn : k + 1 + n = buddyMaxOrder) :
    ∀ q ∈ s.splitFootprint (k + 1), q < s.pageNum := by
  induction n generalizing k with
  | zero =>
    rw [splitFootprint, if_pos (by omega)]
    exact fun q hq => absurd hq List.not_mem_nil
  | succ n ih =>
    rw [splitFootprint, if_neg (by omega)]
    by_cases hz : (s.freeLists (k + 1)).nrFree = 0
    · rw [if_pos hz]
      intro q hq
      rcases List.mem_append.1 hq with hq | hq
      · exact ih (by omega) q hq
      rcases splitChunk_spec (k := k + 1) (n := n) (by omega) h with
        ⟨e, -⟩ | ⟨c, s', -, e, hf, -, hi, -⟩
      · rw [e] at hq
        exact absurd hq List.not_mem_nil
      · rw [e] at hq
        rw [← hf.pageNum]
        exact hi.cutFootprint_lt q hq
    · rw [if_neg hz]
      obtain ⟨c, cs, -, hc⟩ := takeFirst_spec h (by omega) hz
      have hlist : (s.freeLists (k + 1)).freeList = c :: cs := hc
      have hcm := mem_of_lists_eq hc
      have hdel := h.listDelFootprint_lt (by omega) hcm
      have hcut := (h.delFree (by omega) hcm).cutFootprint_lt
      rw [hlist] at hdel ⊢
      intro q hq
      rcases List.mem_append.1 hq with hq | hq
      · exact hdel q hq
      · exact hcut q hq

/-- The recursion of `merge_chunk` stays inside the array. -/
lemma Inv.mergeFootprint_lt (h : Inv s (insert ⟨c, k⟩ H) A) (hH : (⟨c, k⟩ : Block) ∉ H)
    (hkn : k + n + 1 = buddyMaxOrder) : ∀ q ∈ s.mergeFootprint c, q < s.pageNum := by
  induction n generalizing s c k with
  | zero =>
    have hcm : (⟨c, k⟩ : Block) ∈ s.freeBlocks ∪ insert ⟨c, k⟩ H := .inr (Set.mem_insert _ _)
    have hlt : c < s.pageNum := h.start_lt hcm
    have ho : (s.pages c).order = k := h.order _ hcm
    rw [mergeFootprint]
    simp only [ho]
    rw [if_neg (by omega), if_pos (by omega)]
    intro q hq
    rw [List.mem_singleton.1 hq]
    exact hlt
  | succ n ih =>
    have hcm : (⟨c, k⟩ : Block) ∈ s.freeBlocks ∪ insert ⟨c, k⟩ H := .inr (Set.mem_insert _ _)
    have hlt : c < s.pageNum := h.start_lt hcm
    have ho : (s.pages c).order = k := h.order _ hcm
    have hk : k < buddyMaxOrder := by omega
    rw [mergeFootprint]
    simp only [ho]
    rw [if_neg (by omega)]
    intro q hq
    rcases List.mem_cons.1 hq with rfl | hq
    · exact hlt
    by_cases hz : (s.freeLists k).nrFree = 0
    · rw [if_pos (.inl hz)] at hq
      exact absurd hq List.not_mem_nil
    rw [if_neg (by omega)] at hq
    have hscan : ∀ b, ∀ q ∈ pageInListFootprint (s.freeLists k).freeList b, q < s.pageNum :=
      fun b q hq => h.listed_lt hk ((List.takeWhile_sublist _).subset hq)
    rcases h.buddy_cases (by omega) with ⟨b, p, eb, ep, hh, hp, hblt⟩ | ⟨e, -⟩
    · rw [eb, ep] at hq
      simp only [] at hq
      rcases List.mem_cons.1 hq with rfl | hq
      · exact hblt
      split_ifs at hq with h1 h2 h3
      · exact absurd hq List.not_mem_nil
      · exact absurd hq List.not_mem_nil
      · rcases List.mem_append.1 hq with hq | hq
        · rcases List.mem_append.1 hq with hq | hq
          · exact hscan b q hq
          · exact h.listDelFootprint_lt hk h3 q hq
        · rcases List.mem_cons.1 hq with rfl | hq
          · rcases hh with ⟨rfl, -⟩ | ⟨rfl, -⟩
            · exact hlt
            · exact hblt
          · obtain ⟨hpH, hi⟩ := h.absorb hH (by omega) h3 hp hh
            exact ih hi hpH (by omega) q hq
      · exact hscan b q hq
    · simp only [e, reduceCtorEq, if_false] at hq
      exact absurd hq List.not_mem_nil

/-- The calls of a run stay inside the array. -/
lemma Good.footprint_lt {r : Buddy} {s : Sys} (h : Good r s) {op : Op} (hop : machine.enabled s op) :
    ∀ q ∈ op.footprint s.buddy, q < s.buddy.pageNum := by
  cases op with
  | getPages k =>
    have hk : k + 1 + (buddyMaxOrder - (k + 1)) = buddyMaxOrder :=
      Nat.add_sub_cancel' (Nat.succ_le_succ hop)
    intro q hq
    rw [Op.footprint] at hq
    split_ifs at hq
    · exact h.inv.splitFootprint_lt hk q hq
    · exact absurd hq List.not_mem_nil
  | freePages p =>
    obtain ⟨b, hb, rfl⟩ := hop
    have hset : insert b (s.held \ {b}) = s.held := by
      rw [Set.insert_sdiff_singleton]
      exact Set.insert_eq_of_mem hb
    have hinv := h.inv.clearFlag (p := b.start)
    have hk := hinv.top b hb
    rw [← hset] at hinv
    exact hinv.mergeFootprint_lt (n := buddyMaxOrder - 1 - b.order) (fun hn => hn.2 rfl) (by omega)

/-- `split_chunk` and `merge_chunk` read and write the descriptors of their footprints and no others; and in
every state of every run, the footprint of the next call consists of descriptors of the array. -/
theorem footprint_in_range {imgEnd : ℕ} (h : HasAlignedPage (initRegion imgEnd)) :
    (∀ (T : Set ℕ) o s s' k, Agree T o s s' → (∀ q ∈ s.splitFootprint k, q ∈ T) →
      SameResult T o (s.splitChunk k) (s'.splitChunk k)) ∧
    (∀ (T : Set ℕ) o s s' c, Agree T o s s' → (∀ q ∈ s.mergeFootprint c, q ∈ T) →
      SameResult T o (s.mergeChunk c) (s'.mergeChunk c)) ∧
    ∃ s₀, initBuddy imgEnd = .ok s₀ ∧ ∀ ops os s, machine.Run ⟨s₀, []⟩ ops os s →
      ∀ op, machine.enabled s op → ∀ q ∈ op.footprint s.buddy, q < s.buddy.pageNum := by
  refine ⟨fun T o s s' k ha hT => splitChunk_local ha hT, fun T o s s' c ha hT => mergeChunk_local ha hT, ?_⟩
  obtain ⟨s₀, e, hg⟩ := initBuddy_good h
  exact ⟨s₀, e, fun ops os s r op hop => ((machine_sound _).run r hg).footprint_lt hop⟩

/-- Eight pages are asked for and given back: the descriptors that the second call touches. -/
theorem footprint_in_range_five_mb :
    ∃ s₀ p t, initBuddy (physMemEnd - 0x500000) = .ok s₀ ∧
      machine.Run ⟨s₀, []⟩ [.getPages 3] [some p] ⟨t, [⟨p, 3⟩]⟩ ∧
      p ∈ (Op.freePages p).footprint t ∧ ∀ q ∈ (Op.freePages p).footprint t, q < t.pageNum := by
  obtain ⟨s₀, p, t, e, r⟩ := first_getPages (k := 3) hasAlignedPage_five_mb (by decide)
  obtain ⟨-, -, s, e', hr⟩ := footprint_in_range hasAlignedPage_five_mb
  rw [e] at e'
  cases e'
  have hen : machine.enabled ⟨t, [⟨p, 3⟩]⟩ (.freePages p) := ⟨_, List.mem_singleton_self _, rfl⟩
  refine ⟨s₀, p, t, e, r, ?_, hr _ _ _ r _ hen⟩
  rw [Op.footprint, mergeFootprint]
  exact List.mem_cons_self

end KingdoKernel.Buddy
