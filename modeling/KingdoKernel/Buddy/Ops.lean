import KingdoKernel.Buddy.Invariant
import KingdoKernel.Lib.Machine

/-!
# Splitting and merging chunks

The effect of the operations of `mm/buddy.c` on the invariant. `splitChunk_spec` and `mergeChunk_spec`
are inductions over the orders that the recursion of the source climbs: the chunk in flight is held
without being flagged, and one step of the recursion is `Inv.splitHeld` followed by `Inv.addFree`,
respectively `Inv.delFree` followed by `Inv.mergeHeld`. `buddyGetPages_spec` and `buddyFreePages_spec`
are stated for the flags of the held chunks (`heads H`); they say in particular that no `BUG_ON`, no
`kerror` and no access outside the descriptor array is reached.

`Frame` collects what the operations leave alone: the bounds of the region and the `slab` fields.
-/

namespace KingdoKernel.Buddy
open Tiles Tiles.Block

/-- The bounds of the region and the slab pointers of its pages are the same. -/
structure Frame (s s' : Buddy) : Prop where
  startAddr : s'.startAddr = s.startAddr
  size : s'.size = s.size
  pageArrry : s'.pageArrry = s.pageArrry
  pageNum : s'.pageNum = s.pageNum
  slab : ∀ p, (s'.pages p).slab = (s.pages p).slab

namespace Frame

variable {s s' s'' : Buddy}

/-- Nothing has changed. -/
lemma refl (s : Buddy) : Frame s s := ⟨rfl, rfl, rfl, rfl, fun _ => rfl⟩

/-- Two changes one after the other. -/
lemma trans (h : Frame s s') (h' : Frame s' s'') : Frame s s'' :=
  ⟨h'.startAddr.trans h.startAddr, h'.size.trans h.size, h'.pageArrry.trans h.pageArrry,
    h'.pageNum.trans h.pageNum, fun p => (h'.slab p).trans (h.slab p)⟩

/-- Adding a chunk changes lists only. -/
lemma addFree (s : Buddy) (k p : ℕ) : Frame s (s.addFree k p) := ⟨rfl, rfl, rfl, rfl, fun _ => rfl⟩

/-- Taking a chunk out changes lists only. -/
lemma delFree (s : Buddy) (k p : ℕ) : Frame s (s.delFree k p) := ⟨rfl, rfl, rfl, rfl, fun _ => rfl⟩

/-- An order is written. -/
lemma writeOrder (s : Buddy) (p k : ℕ) : Frame s (s.writeOrder p k) := by
  refine ⟨rfl, rfl, rfl, rfl, fun q => ?_⟩
  rw [pages_writeOrder]
  split_ifs with e
  · rw [e]
  · rfl

/-- A flag is written. -/
lemma writeAllocated (s : Buddy) (p v : ℕ) : Frame s (s.writeAllocated p v) := by
  refine ⟨rfl, rfl, rfl, rfl, fun q => ?_⟩
  rw [pages_writeAllocated]
  split_ifs with e
  · rw [e]
  · rfl

/-- The first page frame is kept. -/
lemma base (h : Frame s s') : s'.base = s.base := by rw [Buddy.base, Buddy.base, h.startAddr]

/-- The addresses of the pages are kept. -/
lemma pageToVirt (h : Frame s s') (p : ℕ) : s'.pageToVirt p = s.pageToVirt p := by
  rw [Buddy.pageToVirt, Buddy.pageToVirt, h.startAddr]

/-- The descriptors of the addresses are kept. -/
lemma virtToPage (h : Frame s s') (a : ℕ) : s'.virtToPage a = s.virtToPage a := by
  rw [Buddy.virtToPage, Buddy.virtToPage, h.startAddr, h.size, h.pageNum]

end Frame

variable {s : Buddy} {H : Set Block} {A : Set ℕ}

/-- Taking the first chunk of a non-empty list. -/
lemma takeFirst_spec (h : Inv s H A) {k : ℕ} (hk : k < buddyMaxOrder)
    (hn : (s.freeLists k).nrFree ≠ 0) :
    ∃ c cs, s.takeFirst k = .ok (c, s.delFree k c) ∧ s.lists k = c :: cs := by
  rw [h.count k hk] at hn
  unfold takeFirst
  cases e : (s.freeLists k).freeList with
  | nil => simp [e] at hn
  | cons c cs => exact ⟨c, cs, rfl, e⟩

/-- A list whose counter is zero is empty. -/
lemma Inv.lists_eq_nil (h : Inv s H A) {k : ℕ} (hk : k < buddyMaxOrder)
    (hz : (s.freeLists k).nrFree = 0) : s.lists k = [] := by
  rw [h.count k hk] at hz
  exact List.length_eq_zero_iff.1 hz

/-- The first chunk of a list is in the list. -/
lemma mem_of_lists_eq {k c : ℕ} {cs : List ℕ} (h : s.lists k = c :: cs) :
    c ∈ (s.freeLists k).freeList := by
  have e : (s.freeLists k).freeList = c :: cs := h
  rw [e]
  exact List.mem_cons_self

/-- A free chunk is not held. -/
lemma Inv.not_held (h : Inv s H A) {k p : ℕ} (hk : k < buddyMaxOrder)
    (hp : p ∈ (s.freeLists k).freeList) : (⟨p, k⟩ : Block) ∉ H :=
  fun hb => h.apart _ hb ⟨hk, hp⟩

/-- The end of `split_chunk`: the chunk in flight is cut and its upper half listed. -/
lemma cutChunk_spec {c k : ℕ} (h : Inv s (insert ⟨c, k + 1⟩ H) A)
    (hH : (⟨c, k + 1⟩ : Block) ∉ H) :
    ∃ s', (do
        let s ← s.setOrder c k
        let s ← s.setOrder (c + 2 ^ k) k
        pure (some c, s.addFree k (c + 2 ^ k))) = Except.ok (some c, s') ∧
      Frame s s' ∧ (⟨c, k⟩ : Block) ∉ H ∧ Inv s' (insert ⟨c, k⟩ H) A ∧
      s'.lists = Function.update s.lists k ((c + 2 ^ k) :: s.lists k) := by
  have hmem : (⟨c, k + 1⟩ : Block) ∈ s.freeBlocks ∪ insert ⟨c, k + 1⟩ H :=
    .inr (Set.mem_insert _ _)
  have hend := h.end_le hmem
  have hpos : 0 < 2 ^ k := by positivity
  have hpow : 2 ^ (k + 1) = 2 * 2 ^ k := by rw [pow_succ, Nat.mul_comm]
  simp only [] at hend
  -- a tile other than the one that is cut does not meet it
  have hne : ∀ b ∈ s.freeBlocks ∪ H, ∀ n, n ∈ (⟨c, k + 1⟩ : Block).pages → n ∉ b.pages := by
    intro b hb n hn hnb
    have hb' : b ∈ s.freeBlocks ∪ insert ⟨c, k + 1⟩ H :=
      hb.imp_right (Set.mem_insert_of_mem _)
    have e := h.tiling.disjoint _ hmem b hb' n hn hnb
    rcases hb with hb | hb
    · exact h.apart _ (Set.mem_insert _ _) (e ▸ hb)
    · exact hH (e ▸ hb)
  have hlow : (⟨c, k⟩ : Block) ∉ H := fun hb =>
    hne _ (.inr hb) c (start_mem _) (start_mem ⟨c, k⟩)
  have hupp : (⟨c + 2 ^ k, k⟩ : Block) ∉ insert ⟨c, k⟩ H := by
    rintro (e | hb)
    · injection e with e1 _
      omega
    · exact hne _ (.inr hb) (c + 2 ^ k) (mem_pages_succ.2 (.inr (start_mem ⟨c + 2 ^ k, k⟩)))
        (start_mem ⟨c + 2 ^ k, k⟩)
  have hsplit := h.splitHeld hH
  rw [Set.insert_comm] at hsplit
  have hadd := hsplit.addFree hupp (by
    intro d hd hdk _ hslot
    -- a free buddy of the upper half would be the lower half
    have hal := h.tiling.aligned _ hmem
    have hin : c + 2 ^ k ∈ (⟨c, k + 1⟩ : Block).pages :=
      mem_pages_succ.2 (.inr (start_mem ⟨c + 2 ^ k, k⟩))
    have hd' : d.start ∈ (⟨c, k + 1⟩ : Block).pages := by
      rw [hal.mem_iff] at hin ⊢
      exact hslot.trans hin
    exact hne d (.inl hd) _ hd' d.start_mem)
  refine ⟨_, ?_, ?_, hlow, hadd, lists_addFree _ _ _⟩
  · have h1 : c < s.pageNum := by omega
    have h2 : c + 2 ^ k < (s.writeOrder c k).pageNum := by
      show c + 2 ^ k < s.pageNum
      omega
    rw [setOrder_ok h1, ok_bind, setOrder_ok h2]
    rfl
  · exact ((Frame.writeOrder s c k).trans (Frame.writeOrder _ _ _)).trans (Frame.addFree _ _ _)

/-- No chunk of order `k` or more is free. -/
def Exhausted (s : Buddy) (k : ℕ) : Prop :=
  ∀ j, k ≤ j → j < buddyMaxOrder → (s.freeLists j).freeList = []

/-- No chunk from order `k` on: the list of `k` is empty and there is none above. -/
lemma exhausted_iff {k : ℕ} (hk : k < buddyMaxOrder) :
    s.Exhausted k ↔ (s.freeLists k).freeList = [] ∧ s.Exhausted (k + 1) := by
  constructor
  · exact fun h => ⟨h k le_rfl hk, fun j hj => h j (by omega)⟩
  · rintro ⟨h1, h2⟩ j hj1 hj2
    rcases Nat.eq_or_lt_of_le hj1 with rfl | hlt
    · exact h1
    · exact h2 j hlt hj2

/-- From exhausted lists nothing is taken. -/
lemma Exhausted.pop {k n : ℕ} (hkn : k + n = buddyMaxOrder) (h : s.Exhausted k) :
    s.lists.pop n k = none := by
  induction n generalizing k with
  | zero => rfl
  | succ n ih =>
    have hnil : s.lists k = [] := h k le_rfl (by omega)
    rw [Lists.pop, hnil, ih (by omega) ((exhausted_iff (by omega)).1 h).2]
    rfl

/-- What is taken shows that the lists are not exhausted. -/
lemma not_exhausted_of_pop {k n : ℕ} {x : ℕ × Lists} (hkn : k + n = buddyMaxOrder)
    (e : s.lists.pop n k = some x) : ¬ s.Exhausted k := by
  intro h
  rw [h.pop hkn] at e
  cases e

/-- `split_chunk` either finds every list from its order on empty, or returns a chunk of the order
below that it has taken out of the free lists. -/
lemma splitChunk_spec {k n : ℕ} (hkn : k + 1 + n = buddyMaxOrder) (h : Inv s H A) :
    (s.splitChunk (k + 1) = .ok (none, s) ∧ s.Exhausted (k + 1)) ∨
    ∃ c s' L, s.splitChunk (k + 1) = .ok (some c, s') ∧ Frame s s' ∧ (⟨c, k⟩ : Block) ∉ H ∧
      Inv s' (insert ⟨c, k⟩ H) A ∧ s.lists.pop n (k + 1) = some (c, L) ∧
      s'.lists = Function.update L k ((c + 2 ^ k) :: L k) := by
  induction n generalizing k with
  | zero =>
    left
    refine ⟨?_, fun j hj1 hj2 => by omega⟩
    rw [splitChunk, if_pos (by omega)]
  | succ n ih =>
    rw [splitChunk, if_neg (by omega)]
    by_cases hz : (s.freeLists (k + 1)).nrFree = 0
    · rw [if_pos hz]
      have hnil : s.lists (k + 1) = [] := h.lists_eq_nil (by omega) hz
      rcases ih (k := k + 1) (by omega) with ⟨e, hall⟩ | ⟨c, s1, L, e, hf, hH, hi, hpop, hL⟩
      · left
        rw [e]
        exact ⟨rfl, (exhausted_iff (by omega)).2 ⟨hnil, hall⟩⟩
      · right
        obtain ⟨s2, e2, hf2, hH2, hi2, hL2⟩ := cutChunk_spec hi hH
        refine ⟨c, s2, _, ?_, hf.trans hf2, hH2, hi2, ?_, hL2⟩
        · rw [e]
          exact e2
        · rw [Lists.pop, hnil, hpop, hL]
          rfl
    · right
      rw [if_neg hz]
      obtain ⟨c, cs, e, hc⟩ := takeFirst_spec h (by omega) hz
      have hcm : c ∈ (s.freeLists (k + 1)).freeList := mem_of_lists_eq hc
      have hi := h.delFree (by omega) hcm
      obtain ⟨s2, e2, hf2, hH2, hi2, hL2⟩ := cutChunk_spec hi (h.not_held (by omega) hcm)
      refine ⟨c, s2, _, ?_, (Frame.delFree _ _ _).trans hf2, hH2, hi2, ?_, hL2⟩
      · rw [e]
        exact e2
      · rw [Lists.pop, hc, lists_delFree, hc, List.erase_cons_head]

/-- Flagging the descriptor of a chunk that is held but not flagged. -/
lemma Inv.setFlag (h : Inv s H A) {p : ℕ} :
    Inv (s.writeAllocated p 1) H (insert p A) := by
  refine ⟨h.geo.congr rfl rfl rfl, h.tiling, h.apart, h.top, ?_, h.nodup, h.count, ?_, ?_,
    h.noBuddies⟩
  · intro b hb
    rw [pages_writeAllocated]
    split_ifs with e
    · rw [← e]
      exact h.order b hb
    · exact h.order b hb
  · intro q hq hqA
    rw [pages_writeAllocated]
    split_ifs with e
    · rfl
    · exact h.flagged q hq (hqA.resolve_left e)
  · intro q hq hqA
    rw [Set.mem_insert_iff, not_or] at hqA
    rw [pages_writeAllocated, if_neg hqA.1]
    exact h.unflagged q hq hqA.2

/-- Clearing the flag of a descriptor. -/
lemma Inv.clearFlag (h : Inv s H A) {p : ℕ} :
    Inv (s.writeAllocated p 0) H (A \ {p}) := by
  refine ⟨h.geo.congr rfl rfl rfl, h.tiling, h.apart, h.top, ?_, h.nodup, h.count, ?_, ?_,
    h.noBuddies⟩
  · intro b hb
    rw [pages_writeAllocated]
    split_ifs with e
    · rw [← e]
      exact h.order b hb
    · exact h.order b hb
  · intro q hq hqA
    have hne : q ≠ p := hqA.2
    rw [pages_writeAllocated, if_neg hne]
    exact h.flagged q hq hqA.1
  · intro q hq hqA
    rw [pages_writeAllocated]
    split_ifs with e
    · rfl
    · exact h.unflagged q hq fun hA => hqA ⟨hA, e⟩

/-- The descriptors of the chunks held besides a given one are those flagged besides its head. -/
lemma heads_insert (b : Block) (H : Set Block) : heads (insert b H) = insert b.start (heads H) := by
  ext p
  simp [heads, eq_comm]

/-- The head of a held chunk is the head of no other held chunk. -/
lemma Inv.start_not_mem_heads {c k : ℕ} (h : Inv s (insert ⟨c, k⟩ H) A)
    (hH : (⟨c, k⟩ : Block) ∉ H) : c ∉ heads H := by
  rintro ⟨b, hb, e⟩
  have := h.eq_of_start (.inr (Set.mem_insert _ _)) (.inr (Set.mem_insert_of_mem _ hb)) e.symm
  exact hH (this ▸ hb)

/-- `buddy_get_pages` returns `NULL` and changes nothing when every list from its order on is empty;
otherwise it returns a chunk of the order asked for and holds it, and the lists change as in
`Lists.pop`. -/
lemma buddyGetPages_pop {k : ℕ} (hk : k < buddyMaxOrder) (h : Inv s H (heads H)) :
    (s.buddyGetPages k = .ok (none, s) ∧ s.Exhausted k) ∨
    ∃ c s', s.buddyGetPages k = .ok (some c, s') ∧ Frame s s' ∧ (⟨c, k⟩ : Block) ∉ H ∧
      Inv s' (insert ⟨c, k⟩ H) (heads (insert ⟨c, k⟩ H)) ∧
      s.lists.pop (buddyMaxOrder - k) k = some (c, s'.lists) := by
  -- the common end of both branches: the chunk in flight is unflagged and of the right order
  have hend : ∀ {c s1}, Frame s s1 → (⟨c, k⟩ : Block) ∉ H → Inv s1 (insert ⟨c, k⟩ H) (heads H) →
      ∃ s', (if (s1.pages c).allocated = 1 then
          Except.error (Fault.kerror "page %p has been allocated\n")
        else if (s1.pages c).order ≠ k then .error (.bugOn "page->order != order")
        else do
          let s ← s1.setAllocated c 1
          pure (some c, s)) = .ok (some c, s') ∧ Frame s s' ∧ (⟨c, k⟩ : Block) ∉ H ∧
        Inv s' (insert ⟨c, k⟩ H) (heads (insert ⟨c, k⟩ H)) ∧ s'.lists = s1.lists := by
    intro c s1 hf hH hi
    have hmem : (⟨c, k⟩ : Block) ∈ s1.freeBlocks ∪ insert ⟨c, k⟩ H := .inr (Set.mem_insert _ _)
    have hlt : c < s1.pageNum := hi.start_lt hmem
    have hun := hi.unflagged c hlt (hi.start_not_mem_heads hH)
    have hord : (s1.pages c).order = k := hi.order _ hmem
    refine ⟨s1.writeAllocated c 1, ?_,
      hf.trans (Frame.writeAllocated _ _ _), hH, ?_, rfl⟩
    · rw [if_neg (by omega), if_neg (by omega), setAllocated_ok hlt]
      rfl
    · rw [heads_insert]
      exact hi.setFlag
  obtain ⟨n, hn⟩ := Nat.exists_eq_add_of_le (show k + 1 ≤ buddyMaxOrder from hk)
  have hfuel : buddyMaxOrder - k = n + 1 := by omega
  rw [hfuel]
  unfold buddyGetPages
  by_cases hz : (s.freeLists k).nrFree = 0
  · simp only [if_pos hz]
    have hnil : s.lists k = [] := h.lists_eq_nil hk hz
    rcases splitChunk_spec hn.symm h with ⟨e, hall⟩ | ⟨c, s1, L, e, hf, hH, hi, hpop, hL⟩
    · left
      rw [e]
      exact ⟨rfl, (exhausted_iff hk).2 ⟨hnil, hall⟩⟩
    · right
      obtain ⟨s2, e2, hf2, hH2, hi2, hL2⟩ := hend hf hH hi
      refine ⟨c, s2, by rw [e]; exact e2, hf2, hH2, hi2, ?_⟩
      rw [Lists.pop, hnil, hpop, hL2, hL]
      rfl
  · right
    simp only [if_neg hz]
    obtain ⟨c, cs, e, hc⟩ := takeFirst_spec h hk hz
    have hcm : c ∈ (s.freeLists k).freeList := mem_of_lists_eq hc
    obtain ⟨s2, e2, hf2, hH2, hi2, hL2⟩ :=
      hend (Frame.delFree _ _ _) (h.not_held hk hcm) (h.delFree hk hcm)
    refine ⟨c, s2, by rw [e]; exact e2, hf2, hH2, hi2, ?_⟩
    rw [Lists.pop, hc, hL2, lists_delFree, hc, List.erase_cons_head]

/-- The part of `buddyGetPages_pop` that does not speak of the order of the lists. -/
lemma buddyGetPages_spec {k : ℕ} (hk : k < buddyMaxOrder) (h : Inv s H (heads H)) :
    (s.buddyGetPages k = .ok (none, s) ∧ s.Exhausted k) ∨
    ∃ c s', s.buddyGetPages k = .ok (some c, s') ∧ Frame s s' ∧ (⟨c, k⟩ : Block) ∉ H ∧
      Inv s' (insert ⟨c, k⟩ H) (heads (insert ⟨c, k⟩ H)) ∧ ¬ s.Exhausted k := by
  rcases buddyGetPages_pop hk h with hnone | ⟨c, s', e, hf, hH, hi, hpop⟩
  · exact .inl hnone
  · exact .inr ⟨c, s', e, hf, hH, hi, not_exhausted_of_pop (by omega) hpop⟩

/-! ## Merging -/

/-- The two positions of order `k` inside an aligned block of the next order. -/
lemma start_cases {base p k d : ℕ} (hal : Aligned base ⟨p, k + 1⟩) (hd : Aligned base ⟨d, k⟩)
    (hs : slot base (k + 1) d = slot base (k + 1) p) : d = p ∨ d = p + 2 ^ k := by
  have hmem : d ∈ (⟨p, k + 1⟩ : Block).pages := hal.mem_iff.2 hs
  rcases mem_pages_succ.1 hmem with hm | hm
  · left
    exact ((hal.of_le (Nat.le_succ k)).start_eq hd hm).symm
  · right
    exact (hal.upper.start_eq hd hm).symm

/-- Where `merge_chunk` looks for the parent of a chunk: at the chunk itself, at its lower buddy, or
before the region, and then the chunk is alone in its parent. -/
lemma parent_cases (hg : Geometry s) {c k : ℕ} (hc : c < s.pageNum) (hal : Aligned s.base ⟨c, k⟩) :
    (s.virtToPage (roundDown (s.pageToVirt c) (buddyChunkSize (k + 1))) = some c ∧
      Aligned s.base ⟨c, k + 1⟩) ∨
    (∃ b, s.virtToPage (roundDown (s.pageToVirt c) (buddyChunkSize (k + 1))) = some b ∧
      c = b + 2 ^ k ∧ Aligned s.base ⟨b, k + 1⟩) ∨
    (s.virtToPage (roundDown (s.pageToVirt c) (buddyChunkSize (k + 1))) = none ∧
      ∀ d, Aligned s.base ⟨d, k⟩ → slot s.base (k + 1) d = slot s.base (k + 1) c → d = c) := by
  obtain ⟨q, hq⟩ : 2 ^ k ∣ s.base + c := hal
  have hpos : 0 < 2 ^ k := by positivity
  have hslot : slot s.base (k + 1) c = q / 2 := by
    rw [slot, hq, pow_succ, ← Nat.div_div_eq_div_mul, Nat.mul_div_cancel_left _ hpos]
  have hpar : slot s.base (k + 1) c * 2 ^ (k + 1) = 2 ^ k * (2 * (q / 2)) := by
    rw [hslot, pow_succ]
    ring
  rw [hg.virtToPage_roundDown hc, hpar]
  rcases Nat.mod_two_eq_zero_or_one q with hm | hm
  · left
    have e : 2 * (q / 2) = q := by omega
    rw [e, ← hq]
    refine ⟨?_, ⟨q / 2, ?_⟩⟩
    · rw [if_pos (Nat.le_add_right _ _), Nat.add_sub_cancel_left]
    · show s.base + c = 2 ^ (k + 1) * (q / 2)
      rw [hq, pow_succ, Nat.mul_assoc, e]
  · right
    have e : 2 ^ k * (2 * (q / 2)) + 2 ^ k = s.base + c := by
      rw [hq, ← Nat.mul_succ]
      congr 1
      omega
    by_cases hb : s.base ≤ 2 ^ k * (2 * (q / 2))
    · left
      refine ⟨2 ^ k * (2 * (q / 2)) - s.base, if_pos hb, by omega, q / 2, ?_⟩
      show s.base + (2 ^ k * (2 * (q / 2)) - s.base) = 2 ^ (k + 1) * (q / 2)
      rw [Nat.add_sub_cancel' hb, pow_succ]
      ring
    · right
      refine ⟨if_neg hb, ?_⟩
      intro d hd hs
      obtain ⟨r, hr⟩ : 2 ^ k ∣ s.base + d := hd
      have hr2 : r / 2 = q / 2 := by
        rw [hslot, slot, hr, pow_succ, ← Nat.div_div_eq_div_mul,
          Nat.mul_div_cancel_left _ hpos] at hs
        exact hs
      -- `d` cannot be the even position, which lies before the region
      have hrq : r = q := by
        by_contra hne
        have h2 : r = 2 * (q / 2) := by omega
        rw [h2] at hr
        omega
      rw [hrq, ← hq] at hr
      omega

/-- `c` and `b` are the halves of the chunk of order `k + 1` at `p`. -/
def Halves (k c b p : ℕ) : Prop := (p = c ∧ b = c + 2 ^ k) ∨ (p = b ∧ c = b + 2 ^ k)

namespace Halves

variable {base k c b p d : ℕ}

/-- A half of an aligned block is aligned. -/
lemma aligned (hh : Halves k c b p) (hp : Aligned base ⟨p, k + 1⟩) : Aligned base ⟨b, k⟩ := by
  rcases hh with ⟨rfl, rfl⟩ | ⟨rfl, -⟩
  · exact hp.upper
  · exact hp.of_le (Nat.le_succ k)

/-- The two halves are in one slot of the order above. -/
lemma slot_eq (hh : Halves k c b p) (hp : Aligned base ⟨p, k + 1⟩) :
    slot base (k + 1) b = slot base (k + 1) c := by
  have hpc : p ∈ (⟨p, k + 1⟩ : Block).pages := start_mem _
  have hpu : p + 2 ^ k ∈ (⟨p, k + 1⟩ : Block).pages :=
    mem_pages_succ.2 (.inr (start_mem ⟨p + 2 ^ k, k⟩))
  rw [hp.mem_iff] at hpc hpu
  rcases hh with ⟨rfl, rfl⟩ | ⟨rfl, rfl⟩
  · exact hpu
  · exact hpu.symm

/-- A half does not lie in the other one. -/
lemma not_mem (hh : Halves k c b p) : b ∉ (⟨c, k⟩ : Block).pages := by
  have hpow : 0 < 2 ^ k := by positivity
  rw [mem_pages]
  rcases hh with ⟨-, rfl⟩ | ⟨-, rfl⟩
  · exact fun hm => absurd hm.2 (lt_irrefl _)
  · simp only
    omega

/-- The lower half starts where the whole does. -/
lemma min_eq (hh : Halves k c b p) : min c b = p := by
  rcases hh with ⟨rfl, rfl⟩ | ⟨rfl, rfl⟩
  · exact min_eq_left (Nat.le_add_right _ _)
  · exact min_eq_right (Nat.le_add_right _ _)

/-- There is no third half. -/
lemma eq_of_slot (hh : Halves k c b p) (hp : Aligned base ⟨p, k + 1⟩) (hd : Aligned base ⟨d, k⟩)
    (hs : slot base (k + 1) d = slot base (k + 1) c) : d = c ∨ d = b := by
  have hsp : slot base (k + 1) d = slot base (k + 1) p := by
    have hcb := hh.slot_eq hp
    rcases hh with ⟨rfl, -⟩ | ⟨rfl, -⟩
    · exact hs
    · exact hs.trans hcb.symm
  rcases start_cases hp hd hsp with e | e <;> rcases hh with ⟨rfl, rfl⟩ | ⟨rfl, rfl⟩
  · exact .inl e
  · exact .inr e
  · exact .inr e
  · exact .inl e

end Halves

/-- The chunk that `merge_chunk` takes from the free list is the buddy of the one in flight: both
become one held chunk of the next order. -/
lemma Inv.absorb {c b p k : ℕ} (h : Inv s (insert ⟨c, k⟩ H) A) (hH : (⟨c, k⟩ : Block) ∉ H)
    (hk : k + 1 < buddyMaxOrder) (hb : b ∈ (s.freeLists k).freeList)
    (hal : Aligned s.base ⟨p, k + 1⟩)
    (hpos : Halves k c b p) :
    (⟨p, k + 1⟩ : Block) ∉ H ∧
      Inv ((s.delFree k b).writeOrder p (k + 1)) (insert ⟨p, k + 1⟩ H) A := by
  have hk' : k < buddyMaxOrder := Nat.lt_of_succ_lt hk
  have hbH : (⟨b, k⟩ : Block) ∉ H := fun hm => h.not_held hk' hb (Set.mem_insert_of_mem _ hm)
  have hcm : (⟨c, k⟩ : Block) ∈ s.freeBlocks ∪ insert ⟨c, k⟩ H := .inr (Set.mem_insert _ _)
  have hbm : (⟨b, k⟩ : Block) ∈ s.freeBlocks ∪ insert ⟨c, k⟩ H := .inl ⟨hk', hb⟩
  have hpH : (⟨p, k + 1⟩ : Block) ∉ H := by
    intro hm
    have hm' : (⟨p, k + 1⟩ : Block) ∈ s.freeBlocks ∪ insert ⟨c, k⟩ H :=
      .inr (Set.mem_insert_of_mem _ hm)
    rcases hpos with ⟨rfl, -⟩ | ⟨rfl, -⟩
    · have e := h.eq_of_start hm' hcm rfl
      injection e with _ e
      omega
    · have e := h.eq_of_start hm' hbm rfl
      injection e with _ e
      omega
  refine ⟨hpH, ?_⟩
  have hd := h.delFree hk' hb
  rcases hpos with ⟨rfl, rfl⟩ | ⟨rfl, rfl⟩
  · rw [Set.insert_comm] at hd
    exact hd.mergeHeld hal hk hH hbH
  · exact hd.mergeHeld hal hk hbH hH

/-- No free chunk of order `k`, below the largest, has the parent of the chunk at `c`. -/
def Unpaired (s : Buddy) (k c : ℕ) : Prop :=
  ∀ d ∈ s.freeBlocks, d.order = k → k < buddyMaxOrder - 1 →
    slot s.base (k + 1) d.start ≠ slot s.base (k + 1) c

/-- A chunk without a free buddy is listed as it is. -/
lemma Unpaired.push {k n c : ℕ} (hkn : k + n + 1 = buddyMaxOrder) (h : s.Unpaired k c) :
    (s.addFree k c).lists = Lists.push s.base s.lists n c k := by
  rw [lists_addFree]
  cases n with
  | zero => rfl
  | succ n =>
    have hnone : Lists.mate s.base s.lists k c = none :=
      Lists.mate_eq_none.2 fun b hb => h ⟨b, k⟩ ⟨by simp only; omega, hb⟩ rfl (by omega)
    rw [Lists.push, hnone]

/-- The free buddy of a chunk in flight is the one that `Lists.push` joins it with. -/
lemma Inv.mate_eq_some (h : Inv s H A) {k b c : ℕ} (hk : k + 1 < buddyMaxOrder)
    (hb : b ∈ (s.freeLists k).freeList)
    (hs : slot s.base (k + 1) b = slot s.base (k + 1) c) :
    Lists.mate s.base s.lists k c = some b := by
  refine Lists.mate_eq_some hb hs fun d hd hds => ?_
  have hk' : k < buddyMaxOrder := Nat.lt_of_succ_lt hk
  have e := h.noBuddies ⟨d, k⟩ ⟨hk', hd⟩ ⟨b, k⟩ ⟨hk', hb⟩ rfl (by simp only; omega)
    (hds.trans hs.symm)
  injection e

/-- The buddy that `merge_chunk` computes is the other half of the parent and inside the region. If it
computes none, the chunk is alone in its parent. -/
lemma Inv.buddy_cases {c k : ℕ} (h : Inv s (insert ⟨c, k⟩ H) A) (hk : k + 1 < buddyMaxOrder) :
    (∃ b p, (if s.virtToPage (roundDown (s.pageToVirt c) (buddyChunkSize (k + 1))) = some c then
        some (c + buddyChunkPagesCount k)
        else s.virtToPage (roundDown (s.pageToVirt c) (buddyChunkSize (k + 1)))) = some b ∧
      s.virtToPage (roundDown (s.pageToVirt c) (buddyChunkSize (k + 1))) = some p ∧
      Halves k c b p ∧ Aligned s.base ⟨p, k + 1⟩ ∧ b < s.pageNum) ∨
    (s.virtToPage (roundDown (s.pageToVirt c) (buddyChunkSize (k + 1))) = none ∧ s.Unpaired k c) := by
  have hcm : (⟨c, k⟩ : Block) ∈ s.freeBlocks ∪ insert ⟨c, k⟩ H := .inr (Set.mem_insert _ _)
  have hlt : c < s.pageNum := h.start_lt hcm
  have hpow : 0 < 2 ^ k := by positivity
  rcases parent_cases h.geo hlt (h.tiling.aligned _ hcm) with ⟨e, hp⟩ | ⟨b, e, hcb, hp⟩ | ⟨e, halone⟩
  · -- the upper buddy is inside because the region ends at a multiple of the largest chunk
    have hend := h.geo.block_le hp (by simp only [buddyMaxOrder] at hk; simp only; omega) hlt
    simp only [pow_succ] at hend
    refine .inl ⟨c + 2 ^ k, c, ?_, e, .inl ⟨rfl, rfl⟩, hp, by omega⟩
    rw [if_pos e]
    rfl
  · have hne : b ≠ c := by omega
    refine .inl ⟨b, b, ?_, e, .inr ⟨rfl, hcb⟩, hp, by omega⟩
    rw [e, if_neg fun hbc => hne (Option.some.inj hbc)]
  · refine .inr ⟨e, fun d hd hdk _ hds => ?_⟩
    have hd' : d ∈ s.freeBlocks ∪ insert ⟨c, k⟩ H := .inl hd
    have hda : Aligned s.base ⟨d.start, k⟩ := hdk ▸ h.tiling.aligned d hd'
    have hdc := halone d.start hda hds
    exact h.apart _ (Set.mem_insert _ _) (h.eq_of_start hd' hcm hdc ▸ hd)

section Buddy

variable {c b p k : ℕ} (h : Inv s (insert ⟨c, k⟩ H) (heads H)) (hh : Halves k c b p)
  (hp : Aligned s.base ⟨p, k + 1⟩) (hb : b < s.pageNum)
include h hh hp hb

/-- A buddy that is allocated or has been split is not free. -/
lemma Inv.unpaired_of_busy (hbusy : (s.pages b).allocated = 1 ∨ (s.pages b).order ≠ k) :
    s.Unpaired k c := by
  intro d hd hdk _ hds
  have hcm : (⟨c, k⟩ : Block) ∈ s.freeBlocks ∪ insert ⟨c, k⟩ H := .inr (Set.mem_insert _ _)
  have hd' : d ∈ s.freeBlocks ∪ insert ⟨c, k⟩ H := .inl hd
  have hda : Aligned s.base ⟨d.start, k⟩ := hdk ▸ h.tiling.aligned d hd'
  have hdb : d.start = b := by
    refine (hh.eq_of_slot hp hda hds).resolve_left fun e => ?_
    exact h.apart _ (Set.mem_insert _ _) (h.eq_of_start hd' hcm e ▸ hd)
  have hnh : b ∉ heads H := by
    rintro ⟨x, hx, hxb⟩
    have e := h.eq_of_start hd' (.inr (Set.mem_insert_of_mem _ hx)) (hdb.trans hxb.symm)
    exact h.apart x (Set.mem_insert_of_mem _ hx) (e ▸ hd)
  have hun := h.unflagged b hb hnh
  have hdo := h.order d hd'
  rw [hdb] at hdo
  rcases hbusy with h1 | h1 <;> omega

/-- A buddy that is neither is in the free list, as `merge_chunk` asserts. -/
lemma Inv.mem_of_not_busy (hfree : ¬ ((s.pages b).allocated = 1 ∨ (s.pages b).order ≠ k)) :
    b ∈ (s.freeLists k).freeList := by
  have hcm : (⟨c, k⟩ : Block) ∈ s.freeBlocks ∪ insert ⟨c, k⟩ H := .inr (Set.mem_insert _ _)
  rw [not_or, not_not] at hfree
  obtain ⟨t, ht, htb, -⟩ :=
    h.tiling.exists_buddy_head hcm hb (hh.aligned hp) hh.not_mem (hh.slot_eq hp)
  have htk : t.order = k := by
    rw [← hfree.2, ← htb]
    exact (h.order t ht).symm
  have htf : t ∈ s.freeBlocks := by
    rcases ht with ht | rfl | ht
    · exact ht
    · exact absurd (htb ▸ start_mem _) hh.not_mem
    · exact absurd (h.flagged b hb ⟨t, ht, htb⟩) hfree.1
  rw [← htb, ← htk]
  exact htf.2

end Buddy

/-- `merge_chunk` returns a chunk whose buddy is not free; listing it changes the lists as in
`Lists.push`. -/
lemma mergeChunk_spec {c k n : ℕ} (hkn : k + n + 1 = buddyMaxOrder)
    (h : Inv s (insert ⟨c, k⟩ H) (heads H)) (hH : (⟨c, k⟩ : Block) ∉ H) :
    ∃ m j s', s.mergeChunk c = .ok (m, s') ∧ Frame s s' ∧ (⟨m, j⟩ : Block) ∉ H ∧
      Inv s' (insert ⟨m, j⟩ H) (heads H) ∧ s'.Unpaired j m ∧
      (s'.addFree j m).lists = Lists.push s.base s.lists n c k := by
  induction n generalizing s c k with
  | zero =>
    have hcm : (⟨c, k⟩ : Block) ∈ s.freeBlocks ∪ insert ⟨c, k⟩ H := .inr (Set.mem_insert _ _)
    have hlt : c < s.pageNum := h.start_lt hcm
    have ho : (s.pages c).order = k := h.order _ hcm
    have hun : s.Unpaired k c := fun d _ _ hj => by omega
    refine ⟨c, k, s, ?_, Frame.refl s, hH, h, hun, hun.push hkn⟩
    rw [mergeChunk]
    simp only [ho]
    rw [if_neg (by omega), if_pos (by omega)]
  | succ n ih =>
    have hcm : (⟨c, k⟩ : Block) ∈ s.freeBlocks ∪ insert ⟨c, k⟩ H := .inr (Set.mem_insert _ _)
    have hlt : c < s.pageNum := h.start_lt hcm
    have ho : (s.pages c).order = k := h.order _ hcm
    have hdone : s.Unpaired k c → ∃ m j s', Except.ok (c, s) = (Except.ok (m, s') : Except Fault _) ∧
        Frame s s' ∧ (⟨m, j⟩ : Block) ∉ H ∧ Inv s' (insert ⟨m, j⟩ H) (heads H) ∧ s'.Unpaired j m ∧
        (s'.addFree j m).lists = Lists.push s.base s.lists (n + 1) c k :=
      fun hun => ⟨c, k, s, rfl, Frame.refl s, hH, h, hun, hun.push hkn⟩
    rw [mergeChunk]
    simp only [ho]
    rw [if_neg (by omega)]
    by_cases hz : (s.freeLists k).nrFree = 0
    · -- an empty list holds no buddy
      rw [if_pos (.inl hz)]
      refine hdone fun d hd hdk _ _ => ?_
      have hnil : (s.freeLists k).freeList = [] := h.lists_eq_nil (by omega) hz
      have hd2 := hd.2
      rw [hdk, hnil] at hd2
      exact absurd hd2 List.not_mem_nil
    rw [if_neg (by omega)]
    rcases h.buddy_cases (by omega) with ⟨b, p, eb, ep, hh, hp, hb⟩ | ⟨e, hun⟩
    · rw [eb, ep]
      simp only []
      rw [if_neg (by omega)]
      by_cases hbusy : (s.pages b).allocated = 1 ∨ (s.pages b).order ≠ k
      · rw [if_pos hbusy]
        exact hdone (h.unpaired_of_busy hh hp hb hbusy)
      · -- the buddy is absorbed, and the parent is merged further
        have hbl := h.mem_of_not_busy hh hp hb hbusy
        rw [if_neg hbusy, if_neg (not_not.2 hbl)]
        obtain ⟨hpH, hi⟩ := h.absorb hH (by omega) hbl hp hh
        obtain ⟨m, j, s', e, hf, hmH, hmi, hmn, hL⟩ := ih (by omega) hi hpH
        refine ⟨m, j, s', e, ((Frame.delFree s k b).trans (Frame.writeOrder _ _ _)).trans hf,
          hmH, hmi, hmn, ?_⟩
        have hdel : ((s.delFree k b).writeOrder p (k + 1)).lists =
            Function.update s.lists k ((s.lists k).erase b) := lists_delFree s k b
        rw [Lists.push, h.mate_eq_some (by omega) hbl (hh.slot_eq hp), hL, hdel]
        simp only [hh.min_eq]
        rfl
    · simp only [e, reduceCtorEq, if_false]
      exact hdone hun

/-- `buddy_free_pages` on the head of a held chunk gives it back, and the lists change as in
`Lists.push`. -/
lemma buddyFreePages_push {c k : ℕ} (h : Inv s (insert ⟨c, k⟩ H) (heads (insert ⟨c, k⟩ H)))
    (hH : (⟨c, k⟩ : Block) ∉ H) :
    ∃ s', s.buddyFreePages c = .ok s' ∧ Frame s s' ∧ Inv s' H (heads H) ∧
      s'.lists = Lists.push s.base s.lists (buddyMaxOrder - 1 - k) c k := by
  have hcm : (⟨c, k⟩ : Block) ∈ s.freeBlocks ∪ insert ⟨c, k⟩ H := .inr (Set.mem_insert _ _)
  have hk : k < buddyMaxOrder := h.top _ (Set.mem_insert _ _)
  have hclear := h.clearFlag (p := c)
  have hA : heads (insert ⟨c, k⟩ H) \ {c} = heads H := by
    rw [heads_insert]
    exact Set.insert_sdiff_self_of_notMem (h.start_not_mem_heads hH)
  rw [hA] at hclear
  obtain ⟨m, j, s', e, hf, hmH, hmi, hmn, hL⟩ :=
    mergeChunk_spec (n := buddyMaxOrder - 1 - k) (by omega) hclear hH
  have hmm : (⟨m, j⟩ : Block) ∈ s'.freeBlocks ∪ insert ⟨m, j⟩ H := .inr (Set.mem_insert _ _)
  have hmo : (s'.pages m).order = j := hmi.order _ hmm
  have hj : j < buddyMaxOrder := hmi.top _ (Set.mem_insert _ _)
  refine ⟨s'.addFree j m, ?_, ((Frame.writeAllocated s c 0).trans hf).trans (Frame.addFree _ _ _),
    hmi.addFree hmH hmn, hL⟩
  rw [buddyFreePages, setAllocated_ok (h.start_lt hcm), ok_bind, e, ok_bind]
  simp only [hmo]
  rw [if_neg (by omega)]

/-- The part of `buddyFreePages_push` that does not speak of the order of the lists. -/
lemma buddyFreePages_spec {c k : ℕ} (h : Inv s (insert ⟨c, k⟩ H) (heads (insert ⟨c, k⟩ H)))
    (hH : (⟨c, k⟩ : Block) ∉ H) :
    ∃ s', s.buddyFreePages c = .ok s' ∧ Frame s s' ∧ Inv s' H (heads H) := by
  obtain ⟨s', e, hf, hi, -⟩ := buddyFreePages_push h hH
  exact ⟨s', e, hf, hi⟩

end KingdoKernel.Buddy
