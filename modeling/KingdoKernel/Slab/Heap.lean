import KingdoKernel.Buddy.Run
import KingdoKernel.Slab.Pool

/-!
# The abstract heap

The pool of slabs together with the buddy allocator it takes its memory from. `Heap.alloc` and
`Heap.free` do to a pool what `__slab_alloc` and `__slab_free` do to memory; they are total up to the
faults of the buddy allocator, and `Heap.Inv` rules those out.

`Heap.Inv base h pages` says that the chunks taken from the buddy allocator are those of the slabs and
those in `pages`, which other users hold, and that `page->slab` tells them apart. `Heap.Core` is the part
of it that also holds in the middle of a call.

* `alloc_spec`: a call hands out a block that was free, or finds no memory and changes nothing.
* `free_spec`: a call takes one block back from its caller.
-/

namespace KingdoKernel.Slab
open Tiles Buddy

/-- The buddy allocator and the slabs carved out of its chunks. -/
structure Heap where
  buddy : Buddy
  pool : Pool

namespace Heap

/-- A new slab of order `k` becomes current, if the buddy allocator has a chunk for it. -/
def grow (h : Heap) (k : ℕ) : Except Fault (Option ℕ × Heap) := do
  let (page, buddy) ← h.buddy.buddyGetPages slabPageOrder
  match page with
  | none => pure (none, ⟨buddy, h.pool⟩)
  | some page => do
    let s := buddy.pageToVirt page
    let buddy ← Kernel.setSlabRange buddy page s slabPagesCount
    pure (some s, ⟨buddy, h.pool.add k s⟩)

/-- Find another current slab: the first partial one, or else a new one. -/
def refill (h : Heap) (k : ℕ) : Except Fault Heap :=
  match (h.pool.container k).partials with
  | _ :: _ => .ok ⟨h.buddy, h.pool.advance k⟩
  | [] => do
    let (_, h) ← grow ⟨h.buddy, h.pool.advance k⟩ k
    pure h

/-- Take the first free block of the current slab `s`. -/
def take (h : Heap) (k s : ℕ) : Except Fault (ℕ × Heap) :=
  match h.pool.slab s with
  | some ⟨_, b :: l⟩ =>
    if l = [] then do
      let h ← refill ⟨h.buddy, h.pool.setFree k s l⟩ k
      pure (b, h)
    else pure (b, ⟨h.buddy, h.pool.setFree k s l⟩)
  | _ => .error .wild

/-- Take a block of order `k`; `0` is no block. -/
def alloc (h : Heap) (k : ℕ) : Except Fault (ℕ × Heap) :=
  match (h.pool.container k).current with
  | some s => h.take k s
  | none => do
    let (s, h) ← h.grow k
    match s with
    | none => pure (0, h)
    | some s => h.take k s

/-- Give the chunk of the slab `s` back. -/
def retire (h : Heap) (k s : ℕ) : Except Fault Heap :=
  match h.buddy.virtToPage s with
  | none => .error .wild
  | some page => do
    let buddy ← Kernel.setSlabRange h.buddy page 0 slabPagesCount
    let buddy ← buddy.buddyFreePages page
    pure ⟨buddy, (h.pool.detach k s).drop s⟩

/-- Move a slab of which `n` blocks are free, one of them newly. -/
def settle (h : Heap) (k s n : ℕ) : Except Fault Heap :=
  if n = 1 then .ok ⟨h.buddy, h.pool.park k s⟩
  else if n + 1 = 2 ^ (17 - k) then h.retire k s
  else .ok h

/-- Put the block `b` back into the slab `s`. -/
def free (h : Heap) (s b : ℕ) : Except Fault Heap :=
  match h.pool.slab s with
  | none => .error .wild
  | some ⟨k, l⟩ => settle ⟨h.buddy, h.pool.setFree k s (b :: l)⟩ k s (l.length + 1)

/-- The chunks of the slabs. -/
def slabChunks (h : Heap) : Set Block :=
  {c | c.order = 5 ∧ ∃ σ, h.pool.slab (h.buddy.pageToVirt c.start) = some σ}

/-- The invariant of a heap in the middle of a call. -/
structure Core (base : ℕ) (h : Heap) (pages : Set Block) : Prop where
  layout : h.pool.Layout base
  buddy : Buddy.Inv h.buddy (h.slabChunks ∪ pages) (heads (h.slabChunks ∪ pages))
  apart : ∀ c ∈ pages, c ∉ h.slabChunks
  located : ∀ s σ, h.pool.slab s = some σ → ∃ p, h.buddy.pageToVirt p = s
  owned : ∀ c ∈ h.slabChunks, ∀ p ∈ c.pages, (h.buddy.pages p).slab = h.buddy.pageToVirt c.start
  unowned : ∀ p < h.buddy.pageNum, (∀ c ∈ h.slabChunks, p ∉ c.pages) → (h.buddy.pages p).slab = 0
  above : base + 192 ≤ h.buddy.startAddr

/-- The invariant between two calls. -/
structure Inv (base : ℕ) (h : Heap) (pages : Set Block) : Prop extends Core base h pages where
  settled : h.pool.Settled

end Heap

/-! ## The descriptors of a range of pages -/

/-- `b'` differs from `b` in the `slab` fields only. -/
structure SlabWrites (b b' : Buddy) : Prop where
  bounds : SameBounds b b'
  freeLists : b'.freeLists = b.freeLists
  order : ∀ p, (b'.pages p).order = (b.pages p).order
  allocated : ∀ p, (b'.pages p).allocated = (b.pages p).allocated

/-- Writing `page->slab` keeps the invariant of the buddy allocator. -/
lemma SlabWrites.inv {b b' : Buddy} {H : Set Block} {A : Set ℕ} (hw : SlabWrites b b')
    (h : Buddy.Inv b H A) : Buddy.Inv b' H A := by
  have hn : b'.pageNum = b.pageNum := hw.bounds.2.2.2
  have hF : b'.freeBlocks = b.freeBlocks := by simp only [freeBlocks, hw.freeLists]
  refine ⟨h.geo.congr hw.bounds.1 hw.bounds.2.1 hn, ?_, ?_, h.top, ?_, ?_, ?_, ?_, ?_, ?_⟩
  · rw [hF, hw.bounds.base, hn]
    exact h.tiling
  · rw [hF]
    exact h.apart
  · intro c hc
    rw [hF] at hc
    rw [hw.order]
    exact h.order c hc
  · rw [hw.freeLists]
    exact h.nodup
  · rw [hw.freeLists]
    exact h.count
  · intro p hp hA
    rw [hw.allocated]
    exact h.flagged p (hn ▸ hp) hA
  · intro p hp hA
    rw [hw.allocated]
    exact h.unflagged p (hn ▸ hp) hA
  · rw [hF, hw.bounds.base]
    exact h.noBuddies

/-- The loops over the pages of a slab. -/
lemma setSlabRange_spec {b : Buddy} {p n : ℕ} (ptr : ℕ) (hp : p + n ≤ b.pageNum) :
    ∃ b', Kernel.setSlabRange b p ptr n = .ok b' ∧ SlabWrites b b' ∧
      ∀ q, (b'.pages q).slab = if p ≤ q ∧ q < p + n then ptr else (b.pages q).slab := by
  induction n generalizing b p with
  | zero =>
    refine ⟨b, rfl, ⟨SameBounds.refl b, rfl, fun _ => rfl, fun _ => rfl⟩, fun q => ?_⟩
    rw [if_neg (by omega)]
  | succ n ih =>
    obtain ⟨b', e, hw, hs⟩ := ih (b := b.writeSlab p ptr) (p := p + 1)
      (show p + 1 + n ≤ b.pageNum by omega)
    refine ⟨b', ?_, ⟨?_, hw.freeLists, fun q => ?_, fun q => ?_⟩, fun q => ?_⟩
    · rw [Kernel.setSlabRange, setSlab_ok (by omega)]
      exact e
    · exact hw.bounds
    · rw [hw.order, pages_writeSlab]
      split_ifs with h
      · rw [h]
      · rfl
    · rw [hw.allocated, pages_writeSlab]
      split_ifs with h
      · rw [h]
      · rfl
    · rw [hs, pages_writeSlab]
      split_ifs <;> first | rfl | (exfalso; omega)

namespace Heap

variable {base k s : ℕ} {h : Heap} {pages : Set Block}

/-- The chunks of the slabs depend on the start of the region only. -/
lemma slabChunks_congr {b b' : Buddy} (hb : b'.startAddr = b.startAddr) (P : Pool) :
    slabChunks ⟨b', P⟩ = slabChunks ⟨b, P⟩ := by
  simp only [slabChunks, pageToVirt, hb]

/-- Pages have different addresses. -/
lemma pageToVirt_injective (b : Buddy) {p q : ℕ} (e : b.pageToVirt p = b.pageToVirt q) : p = q := by
  simp only [pageToVirt, pageSize] at e
  omega

/-- A change of the pool that neither adds nor removes slabs. -/
lemma Core.withPool (hc : Core base h pages) {Q : Pool} (hQ : Q.Layout base)
    (hd : ∀ t, (∃ σ, Q.slab t = some σ) ↔ ∃ σ, h.pool.slab t = some σ) :
    Core base ⟨h.buddy, Q⟩ pages := by
  have hS : slabChunks ⟨h.buddy, Q⟩ = h.slabChunks := by
    ext c
    simp only [slabChunks, Set.mem_ofPred_eq, hd]
  refine ⟨hQ, ?_, ?_, ?_, ?_, ?_, hc.above⟩
  · rw [hS]
    exact hc.buddy
  · rw [hS]
    exact hc.apart
  · intro t σ ht
    obtain ⟨τ, hτ⟩ := (hd t).1 ⟨σ, ht⟩
    exact hc.located t τ hτ
  · rw [hS]
    exact hc.owned
  · rw [hS]
    exact hc.unowned

/-- A change of the buddy allocator that concerns chunks of other users. -/
lemma Core.withBuddy (hc : Core base h pages) {b : Buddy} {pages' : Set Block}
    (hf : Frame h.buddy b)
    (hi : Buddy.Inv b (h.slabChunks ∪ pages') (heads (h.slabChunks ∪ pages')))
    (ha : ∀ c ∈ pages', c ∉ h.slabChunks) : Core base ⟨b, h.pool⟩ pages' := by
  have hS : slabChunks ⟨b, h.pool⟩ = h.slabChunks := slabChunks_congr hf.startAddr h.pool
  refine ⟨hc.layout, ?_, ?_, ?_, ?_, ?_, ?_⟩
  · rw [hS]
    exact hi
  · rw [hS]
    exact ha
  · intro t σ ht
    obtain ⟨p, hp⟩ := hc.located t σ ht
    exact ⟨p, by rw [hf.pageToVirt, hp]⟩
  · rw [hS]
    intro c hcS p hp
    rw [hf.slab, hf.pageToVirt]
    exact hc.owned c hcS p hp
  · rw [hS]
    intro p hp hno
    rw [hf.slab]
    exact hc.unowned p (hf.pageNum ▸ hp) hno
  · rw [hf.startAddr]
    exact hc.above

/-- The page a slab starts at. -/
lemma Core.chunk (hc : Core base h pages) {σ : Header} (hs : h.pool.slab s = some σ) :
    ∃ p, h.buddy.pageToVirt p = s ∧ (⟨p, 5⟩ : Block) ∈ h.slabChunks ∧ p + 32 ≤ h.buddy.pageNum ∧
      h.buddy.virtToPage s = some p := by
  obtain ⟨p, rfl⟩ := hc.located s σ hs
  have hm : (⟨p, 5⟩ : Block) ∈ h.slabChunks := ⟨rfl, σ, hs⟩
  have hend := hc.buddy.end_le (.inr (.inl hm))
  simp only [] at hend
  exact ⟨p, rfl, hm, by omega, hc.buddy.geo.virtToPage_pageToVirt (by omega)⟩

/-- Adding a slab at a page adds its chunk. -/
lemma slabChunks_add (b : Buddy) (P : Pool) (k p : ℕ) :
    slabChunks ⟨b, P.add k (b.pageToVirt p)⟩ = insert ⟨p, 5⟩ (slabChunks ⟨b, P⟩) := by
  ext ⟨q, j⟩
  simp only [slabChunks, Set.mem_ofPred_eq, Set.mem_insert_iff, Block.mk.injEq, Pool.slab_add]
  by_cases e : q = p
  · subst e
    simp +contextual
  · have hne : b.pageToVirt q ≠ b.pageToVirt p := fun h => e (pageToVirt_injective b h)
    simp [e, hne]

/-- Dropping a slab removes its chunk. -/
lemma slabChunks_drop (b : Buddy) (P : Pool) (p : ℕ) :
    slabChunks ⟨b, P.drop (b.pageToVirt p)⟩ = slabChunks ⟨b, P⟩ \ {⟨p, 5⟩} := by
  ext ⟨q, j⟩
  simp only [slabChunks, Set.mem_ofPred_eq, Set.mem_sdiff, Set.mem_singleton_iff, Block.mk.injEq,
    Pool.slab_drop]
  by_cases e : q = p
  · subst e
    simp only [if_true, true_and]
    constructor
    · rintro ⟨-, σ, ⟨⟩⟩
    · rintro ⟨⟨hj, -⟩, hne⟩
      exact absurd hj hne
  · have hne : b.pageToVirt q ≠ b.pageToVirt p := fun h => e (pageToVirt_injective b h)
    simp [e, hne]

/-- A chunk of 32 pages is a place for a slab. -/
lemma Core.place {b : Buddy} {H : Set Block} {A : Set ℕ} {p : ℕ} (hb : base + 192 ≤ b.startAddr)
    (hi : Buddy.Inv b H A) (hp : (⟨p, 5⟩ : Block) ∈ H) (h6 : 6 ≤ k) (h11 : k ≤ 11) :
    Header.WF base (b.pageToVirt p) ⟨k, blocks (b.pageToVirt p) k⟩ := by
  have hend := hi.end_le (.inr hp)
  have hal := hi.geo.aligned_iff.1 (hi.tiling.aligned _ (.inr hp))
  have hsz := hi.geo.size
  have hbd := hi.geo.bound
  simp only [] at hend hal
  refine ⟨h6, h11, by simpa using hal, ?_, ?_, nodup_blocks _ _, fun b hb => hb⟩
  · simp only [pageToVirt]
    omega
  · simp only [pageToVirt, pageSize]
    omega

/-- The buddy allocator `b` gives the chunk at `s` for a slab and becomes `b'`. -/
def Carves (b : Buddy) (s : ℕ) (b' : Buddy) : Prop :=
  ∃ page b1, b.buddyGetPages slabPageOrder = .ok (some page, b1) ∧ b1.pageToVirt page = s ∧
    Kernel.setSlabRange b1 page s slabPagesCount = .ok b'

/-- A chunk that has been carved becomes the current slab. -/
lemma Carves.grow {b : Buddy} (hc : Carves h.buddy s b) :
    h.grow k = .ok (some s, ⟨b, h.pool.add k s⟩) := by
  obtain ⟨page, b1, e1, rfl, e2⟩ := hc
  rw [Heap.grow, e1]
  simp only [ok_bind, e2, pure_eq_ok]

/-- Without a chunk there is no new slab. -/
lemma grow_none (e : h.buddy.buddyGetPages slabPageOrder = .ok (none, h.buddy)) :
    h.grow k = .ok (none, h) := by
  rw [grow, e]
  rfl

/-- `alloc_slab_from_buddy` on heaps. -/
lemma grow_spec (hc : Core base h pages) (h6 : 6 ≤ k) (h11 : k ≤ 11) :
    (h.buddy.buddyGetPages slabPageOrder = .ok (none, h.buddy) ∧ h.buddy.Exhausted 5) ∨
    ∃ s b, Carves h.buddy s b ∧ h.pool.slab s = none ∧
      Core base ⟨b, h.pool.add k s⟩ pages ∧ SameBounds h.buddy b ∧
      Header.WF base s ⟨k, blocks s k⟩ ∧ ¬ h.buddy.Exhausted 5 := by
  rcases buddyGetPages_spec (show 5 < buddyMaxOrder by decide) hc.buddy with
    ⟨e, hall⟩ | ⟨p, b1, e, hf, hH, hi, hex⟩
  · exact .inl ⟨e, hall⟩
  right
  have hp : (⟨p, 5⟩ : Block) ∈ insert ⟨p, 5⟩ (h.slabChunks ∪ pages) := Set.mem_insert _ _
  have hend := hi.end_le (.inr hp)
  simp only [] at hend
  obtain ⟨b2, e2, hw, hs2⟩ := setSlabRange_spec (b := b1) (p := p) (n := 32) (b1.pageToVirt p)
    (by omega)
  have hbd : SameBounds h.buddy b2 := hf.sameBounds.trans hw.bounds
  have hfresh : h.pool.slab (b2.pageToVirt p) = none := by
    by_contra hne
    obtain ⟨σ, hσ⟩ := Option.ne_none_iff_exists'.1 hne
    refine hH (.inl ⟨rfl, σ, ?_⟩)
    rw [← hσ, hbd.pageToVirt]
  have hi2 := hw.inv hi
  have hwf : Header.WF base (b2.pageToVirt p) ⟨k, blocks (b2.pageToVirt p) k⟩ :=
    Core.place (by rw [hbd.1]; exact hc.above) hi2 hp h6 h11
  have hS : slabChunks ⟨b2, h.pool.add k (b2.pageToVirt p)⟩ = insert ⟨p, 5⟩ h.slabChunks := by
    rw [slabChunks_add, slabChunks_congr hbd.1]
  -- pages of older slabs are not pages of the new one
  have hout : ∀ c ∈ h.slabChunks, ∀ q ∈ c.pages, ¬ (p ≤ q ∧ q < p + 32) := by
    intro c hcS q hq hpq
    have e' := hi.tiling.disjoint c (.inr (Set.mem_insert_of_mem _ (.inl hcS))) _ (.inr hp) q hq hpq
    exact hH (.inl (e' ▸ hcS))
  refine ⟨b2.pageToVirt p, b2, ?_, hfresh, ⟨?_, ?_, ?_, ?_, ?_, ?_, ?_⟩, ?_, hwf, hex⟩
  · exact ⟨p, b1, e, (hw.bounds.pageToVirt p).symm, by rw [hw.bounds.pageToVirt]; exact e2⟩
  · exact hc.layout.add hwf hfresh
  · rw [hS, Set.insert_union]
    exact hi2
  · intro c hcp hcS
    rw [hS] at hcS
    rcases hcS with rfl | hcS
    · exact hH (.inr hcp)
    · exact hc.apart c hcp hcS
  · intro t σ ht
    simp only [Pool.slab_add] at ht
    split_ifs at ht with e'
    · exact ⟨p, e'.symm⟩
    · obtain ⟨q, hq⟩ := hc.located t σ ht
      exact ⟨q, by rw [hbd.pageToVirt, hq]⟩
  · rw [hS]
    rintro c (rfl | hcS) q hq
    · rw [hs2, hw.bounds.pageToVirt]
      exact if_pos hq
    · rw [hs2, if_neg (hout c hcS q hq), hf.slab, hc.owned c hcS q hq, hbd.pageToVirt]
  · rw [hS]
    intro q hq hno
    have hq' : q < h.buddy.pageNum := by
      rw [← hbd.2.2.2]
      exact hq
    rw [hs2, if_neg, hf.slab, hc.unowned q hq' fun c hcS => hno c (Set.mem_insert_of_mem _ hcS)]
    exact fun hpq => hno _ (Set.mem_insert _ _) hpq
  · rw [hbd.1]
    exact hc.above
  · exact hbd

/-- The current slab, and its first free block. -/
lemma Inv.current_free (hi : Inv base h pages) (hc : (h.pool.container k).current = some s) :
    ∃ b l, h.pool.slab s = some ⟨k, b :: l⟩ := by
  obtain ⟨⟨k', l⟩, hs, rfl⟩ := hi.layout.current k s hc
  cases l with
  | nil => exact absurd rfl (hi.settled.current _ s _ hc hs)
  | cons b l => exact ⟨b, l, hs⟩

/-- Replacing the free blocks of a slab. -/
lemma Core.setFree (hc : Core base h pages) {l l' : List ℕ} (hs : h.pool.slab s = some ⟨k, l⟩)
    (hn : l'.Nodup) (hb : ∀ b ∈ l', b ∈ blocks s k) :
    Core base ⟨h.buddy, h.pool.setFree k s l'⟩ pages := by
  have hw := hc.layout.slabs s _ hs
  refine hc.withPool (hc.layout.setFree
    ⟨hw.order_ge, hw.order_le, hw.aligned, hw.above, hw.below, hn, hb⟩ ?_) ?_
  · intro σ hσ
    rw [hs] at hσ
    cases hσ
    rfl
  · intro t
    rw [Pool.slab_setFree]
    split_ifs with e
    · simp [e, hs]
    · rfl

/-- A block leaves the chain of its slab. -/
lemma Core.pop (hc : Core base h pages) {b : ℕ} {l : List ℕ} (hs : h.pool.slab s = some ⟨k, b :: l⟩) :
    Core base ⟨h.buddy, h.pool.setFree k s l⟩ pages := by
  have hw := hc.layout.slabs s _ hs
  exact hc.setFree hs (List.nodup_cons.1 hw.nodup).2 fun c hc => hw.blocks c (List.mem_cons_of_mem _ hc)

/-- The container moves to its first partial slab. -/
lemma Core.advance (hc : Core base h pages) : Core base ⟨h.buddy, h.pool.advance k⟩ pages :=
  hc.withPool hc.layout.advance fun _ => Iff.rfl

/-- What a heap has become after a block `b` of order `k` has been handed out. -/
structure Gave (base : ℕ) (h : Heap) (pages : Set Block) (k b : ℕ) (h' : Heap) : Prop where
  inv : Inv base h' pages
  bounds : SameBounds h.buddy h'.buddy
  ne_zero : b ≠ 0
  fresh : (⟨b, k⟩ : Block) ∉ h.pool.live
  live : h'.pool.live = insert ⟨b, k⟩ h.pool.live

/-- A free block is neither `NULL` nor a block of a caller. -/
lemma Core.not_live (hc : Core base h pages) {b : ℕ} {l : List ℕ}
    (hs : h.pool.slab s = some ⟨k, b :: l⟩) : b ≠ 0 ∧ (⟨b, k⟩ : Block) ∉ h.pool.live := by
  have hw := hc.layout.slabs s _ hs
  have hb := hw.blocks b List.mem_cons_self
  have hbd := hw.bounds hb
  have hpos : 0 < 2 ^ k := by positivity
  simp only [] at hbd
  refine ⟨by omega, fun hl => ?_⟩
  rcases (Pool.mem_live_of_slab hs).1 hl with ⟨-, -, h3⟩ | ⟨t, τ, hne, ht, -, h2, -⟩
  · exact h3 List.mem_cons_self
  · exact hne (hc.layout.slab_eq_of_mem ht hs h2 hb)

/-- Looking for another current slab once `s` has given its last block. -/
lemma refill_spec (hi : Inv base h pages) (h6 : 6 ≤ k) (h11 : k ≤ 11) {b : ℕ}
    (hc : (h.pool.container k).current = some s) (hs : h.pool.slab s = some ⟨k, [b]⟩) :
    ∃ h', refill ⟨h.buddy, h.pool.setFree k s []⟩ k = .ok h' ∧ Gave base h pages k b h' := by
  have hcore := hi.toCore.pop hs
  have hadv := hcore.advance (k := k)
  have hset := hi.settled.exhaust hi.layout hc hs
  have hlive := Pool.live_pop hi.layout hs
  obtain ⟨h0, hnl⟩ := hi.toCore.not_live hs
  unfold refill
  cases hp : ((h.pool.setFree k s []).container k).partials with
  | cons t ts =>
    exact ⟨_, rfl, ⟨hadv, hset⟩, SameBounds.refl _, h0, hnl, hlive⟩
  | nil =>
    rcases grow_spec hadv h6 h11 with ⟨e, -⟩ | ⟨s2, b2, e, hfresh, hcore2, hbd, -⟩
    · refine ⟨_, ?_, ⟨hadv, hset⟩, SameBounds.refl _, h0, hnl, hlive⟩
      simp only [grow_none e, ok_bind, pure_eq_ok]
    · refine ⟨_, ?_, ⟨hcore2, ?_⟩, hbd, h0, hnl, ?_⟩
      · simp only [e.grow, ok_bind, pure_eq_ok]
      · refine hset.add hadv.layout h11 hfresh ?_
        rw [Pool.container_advance, if_pos rfl, hp]
        rfl
      · exact (Pool.live_add hfresh).trans hlive

/-- The allocator keeps its bytes when it looks for another current slab. -/
lemma refill_owns (hc : Core base h pages) (h6 : 6 ≤ k) (h11 : k ≤ 11) {h' : Heap}
    (e : h.refill k = .ok h') {x : ℕ} (hx : h.pool.Owns base x) : h'.pool.Owns base x := by
  have hadv := hc.advance (k := k)
  unfold refill at e
  cases hp : (h.pool.container k).partials with
  | cons t ts =>
    rw [hp] at e
    cases e
    exact hx
  | nil =>
    rw [hp] at e
    rcases grow_spec hadv h6 h11 with ⟨eg, -⟩ | ⟨s2, b2, eg, hfresh, -⟩
    · simp only [grow_none eg, ok_bind, pure_eq_ok, Except.ok.injEq] at e
      subst e
      exact hx
    · simp only [eg.grow, ok_bind, pure_eq_ok, Except.ok.injEq] at e
      subst e
      exact Pool.owns_add hfresh hx

/-- The bytes of the allocator after a block has been taken. -/
lemma take_owns (hi : Inv base h pages) (h6 : 6 ≤ k) (h11 : k ≤ 11)
    (hcur : (h.pool.container k).current = some s) {b : ℕ} {h' : Heap} (e : h.take k s = .ok (b, h'))
    {x : ℕ} (hx : h.pool.Owns base x) : h'.pool.Owns base x ∨ (b ≤ x ∧ x < b + 2 ^ k) := by
  obtain ⟨c, l, hs⟩ := hi.current_free hcur
  have hpop := Pool.owns_pop hs hx
  rw [take, hs] at e
  simp only [] at e
  by_cases hl : l = []
  · subst hl
    rw [if_pos rfl] at e
    obtain ⟨h2, e2, e3⟩ := bind_eq_ok.1 e
    cases e3
    exact hpop.imp_left (refill_owns (hi.toCore.pop hs) h6 h11 e2)
  · rw [if_neg hl] at e
    cases e
    exact hpop

/-- The block taken is the first free one. -/
lemma take_fst {b c : ℕ} {l : List ℕ} {h' : Heap} (hs : h.pool.slab s = some ⟨k, c :: l⟩)
    (e : h.take k s = .ok (b, h')) : b = c := by
  rw [take, hs] at e
  simp only [] at e
  split_ifs at e
  · obtain ⟨h2, -, e2⟩ := bind_eq_ok.1 e
    cases e2
    rfl
  · cases e
    rfl

/-- A block from the current slab. -/
lemma take_spec (hi : Inv base h pages) (h6 : 6 ≤ k) (h11 : k ≤ 11)
    (hc : (h.pool.container k).current = some s) :
    ∃ b h', h.take k s = .ok (b, h') ∧ Gave base h pages k b h' := by
  obtain ⟨b, l, hs⟩ := hi.current_free hc
  rw [take, hs]
  obtain ⟨h0, hnl⟩ := hi.toCore.not_live hs
  by_cases hl : l = []
  · subst hl
    obtain ⟨h', e, hg⟩ := refill_spec hi h6 h11 hc hs
    refine ⟨b, h', ?_, hg⟩
    simp only [if_true, e, ok_bind, pure_eq_ok]
  · refine ⟨b, _, if_neg hl, ⟨hi.toCore.pop hs, hi.settled.pop hi.layout hc hs hl⟩,
      SameBounds.refl _, h0, hnl, Pool.live_pop hi.layout hs⟩

/-- `__slab_alloc` on heaps. -/
lemma alloc_spec (hi : Inv base h pages) (h6 : 6 ≤ k) (h11 : k ≤ 11) :
    (h.alloc k = .ok (0, h) ∧ h.buddy.Exhausted 5) ∨
    ∃ b h', h.alloc k = .ok (b, h') ∧ Gave base h pages k b h' := by
  unfold alloc
  cases hc : (h.pool.container k).current with
  | some s => exact .inr (take_spec hi h6 h11 hc)
  | none =>
    rcases grow_spec hi.toCore h6 h11 with ⟨e, hex⟩ | ⟨s, b, e, hfresh, hcore, hbd, -⟩
    · refine .inl ⟨?_, hex⟩
      simp only [grow_none e, ok_bind, pure_eq_ok]
    · right
      have hlive := Pool.live_add (k := k) hfresh
      obtain ⟨c, h', e', hg⟩ := take_spec (s := s) (k := k)
        ⟨hcore, hi.settled.add hi.layout h11 hfresh hc⟩ h6 h11
        (by rw [Pool.container_add, if_pos rfl])
      refine ⟨c, h', by simp only [e.grow, ok_bind, e'], hg.inv, hbd.trans hg.bounds, hg.ne_zero, ?_, ?_⟩
      · rw [← hlive]
        exact hg.fresh
      · rw [← hlive]
        exact hg.live

/-! ## Giving blocks back -/

/-- The buddy allocator `b` takes the chunk of the slab at `s` back and becomes `b'`. -/
def Returns (b : Buddy) (s : ℕ) (b' : Buddy) : Prop :=
  ∃ page b1, b.virtToPage s = some page ∧
    Kernel.setSlabRange b page 0 slabPagesCount = .ok b1 ∧ b1.buddyFreePages page = .ok b'

/-- A slab given back leaves its container and the pool. -/
lemma Returns.retire {b : Buddy} (hr : Returns h.buddy s b) :
    h.retire k s = .ok ⟨b, (h.pool.detach k s).drop s⟩ := by
  obtain ⟨page, b1, e1, e2, e3⟩ := hr
  rw [Heap.retire, e1]
  simp only [e2, ok_bind, e3, pure_eq_ok]

/-- `put_slab_to_buddy` and the unlinking after it. -/
lemma retire_spec (hc : Core base h pages) {σ : Header} (hs : h.pool.slab s = some σ)
    (hap : (h.pool.container σ.order).current = some s → s ∉ (h.pool.container σ.order).partials) :
    ∃ b, Returns h.buddy s b ∧ Core base ⟨b, (h.pool.detach σ.order s).drop s⟩ pages ∧
      SameBounds h.buddy b := by
  obtain ⟨p, rfl, hm, hend, hv⟩ := hc.chunk hs
  obtain ⟨b1, e1, hw, hs1⟩ := setSlabRange_spec (b := h.buddy) (p := p) (n := 32) 0 hend
  have hset : h.slabChunks ∪ pages = insert ⟨p, 5⟩ (h.slabChunks \ {⟨p, 5⟩} ∪ pages) := by
    rw [← Set.insert_union, Set.insert_sdiff_singleton, Set.insert_eq_of_mem hm]
  have hnot : (⟨p, 5⟩ : Block) ∉ h.slabChunks \ {⟨p, 5⟩} ∪ pages := by
    rintro (hx | hx)
    · exact hx.2 rfl
    · exact hc.apart _ hx hm
  have hi1 := hw.inv hc.buddy
  rw [hset] at hi1
  obtain ⟨b2, e2, hf, hi2⟩ := buddyFreePages_spec hi1 hnot
  have hbd : SameBounds h.buddy b2 := hw.bounds.trans hf.sameBounds
  have hS : slabChunks ⟨b2, (h.pool.detach σ.order (h.buddy.pageToVirt p)).drop (h.buddy.pageToVirt p)⟩ =
      h.slabChunks \ {⟨p, 5⟩} := by
    rw [← hbd.pageToVirt, slabChunks_drop, slabChunks_congr hbd.1]
    simp only [slabChunks, Pool.slab_detach]
  obtain ⟨hn1, hn2⟩ := hc.layout.not_mem_detach hap
  refine ⟨b2, ⟨p, b1, hv, e1, e2⟩, ⟨?_, ?_, ?_, ?_, ?_, ?_, ?_⟩, hbd⟩
  · exact hc.layout.detach.drop (by rw [Pool.slab_detach, hs]) hn1 hn2
  · rw [hS]
    exact hi2
  · rw [hS]
    exact fun c hcp hcS => hc.apart c hcp hcS.1
  · intro t τ ht
    rw [Pool.slab_drop, Pool.slab_detach] at ht
    split_ifs at ht
    obtain ⟨q, hq⟩ := hc.located t τ ht
    exact ⟨q, by rw [hbd.pageToVirt, hq]⟩
  · rw [hS]
    intro c hcS q hq
    rw [hf.slab, hs1, if_neg, hbd.pageToVirt]
    · exact hc.owned c hcS.1 q hq
    · intro hpq
      exact hcS.2 (hc.buddy.tiling.disjoint c (.inr (.inl hcS.1)) _ (.inr (.inl hm)) q hq hpq)
  · rw [hS]
    intro q hq hno
    rw [hf.slab, hs1]
    split_ifs with hpq
    · rfl
    · refine hc.unowned q (hbd.2.2.2 ▸ hq) fun c hcS hqc => ?_
      by_cases e : c = ⟨p, 5⟩
      · subst e
        exact hpq hqc
      · exact hno c ⟨hcS, e⟩ hqc
  · rw [hbd.1]
    exact hc.above

/-- `__slab_free` on heaps. -/
lemma free_spec (hi : Inv base h pages) {b : ℕ} {σ : Header} (hs : h.pool.slab s = some σ)
    (hb : b ∈ blocks s σ.order) (hf : b ∉ σ.free) :
    ∃ h', h.free s b = .ok h' ∧ Inv base h' pages ∧ SameBounds h.buddy h'.buddy ∧
      h'.pool.live = h.pool.live \ {⟨b, σ.order⟩} := by
  obtain ⟨k, l⟩ := σ
  have hw := hi.layout.slabs s _ hs
  have hlive := Pool.live_push hi.layout hs hb
  have hnd : (b :: l).Nodup := List.nodup_cons.2 ⟨hf, hw.nodup⟩
  have hsub : ∀ c ∈ b :: l, c ∈ blocks s k := by
    intro c hc
    rcases List.mem_cons.1 hc with rfl | hc
    · exact hb
    · exact hw.blocks c hc
  have hcore := hi.toCore.setFree hs hnd hsub
  have hs' : (h.pool.setFree k s (b :: l)).slab s = some ⟨k, b :: l⟩ := by
    rw [Pool.slab_setFree, if_pos rfl]
  rw [free, hs]
  simp only [settle]
  by_cases h1 : l.length + 1 = 1
  · have hnil : l = [] := List.length_eq_zero_iff.1 (by omega)
    subst hnil
    have hps : s ∉ (h.pool.container k).partials := by
      intro e
      have := (hi.settled.partials k s e _ hs).1
      simp at this
    refine ⟨_, if_pos h1, ⟨?_, hi.settled.park hw.order_le hs⟩, SameBounds.refl _, hlive⟩
    exact hcore.withPool (hcore.layout.park hs' rfl hps) fun _ => Iff.rfl
  · have hne : l ≠ [] := by
      rintro rfl
      simp at h1
    by_cases h2 : l.length + 1 + 1 = 2 ^ (17 - k)
    · obtain ⟨b2, e, hcore2, hbd⟩ := retire_spec hcore hs' (hi.settled.apart k s)
      refine ⟨_, ?_, ⟨hcore2, hi.settled.retire hi.layout⟩, hbd, ?_⟩
      · rw [if_neg h1, if_pos h2]
        exact e.retire
      · have hdet : ((h.pool.setFree k s (b :: l)).detach k s).slab s = some ⟨k, b :: l⟩ := by
          rw [Pool.slab_detach, hs']
        rw [Pool.live_drop hdet, ← hlive]
        · exact Pool.live_congr (Pool.slab_detach _ _ _)
        · -- a list of `2 ^ (17 - k) - 1` different blocks has all of them
          intro c hc
          have hsp : (b :: l).Subperm (blocks s k) := List.subperm_of_subset hnd hsub
          have hperm := hsp.perm_of_length_le (by simp; omega)
          exact hperm.mem_iff.2 hc
    · refine ⟨_, by rw [if_neg h1, if_neg h2], ⟨hcore, ?_⟩, SameBounds.refl _, hlive⟩
      exact hi.settled.push hs hne (by omega) hi.layout

end Heap

end KingdoKernel.Slab
