import KingdoKernel.Kmalloc.Refine

/-!
# Runs of the allocators

The allocators driven by their callers: `kmalloc` and `kfree`, `slab_alloc` and `slab_free`,
`get_pages` and `free_pages` in any order, every pointer being freed by its own kind of call, and
callers writing to the memory they hold. The state carries the pointers that callers hold.

The machine is simulated by the one on heaps, which has no memory (`machine_simulates`); `Good` is the
relation between the two, and `step` is what a single call does.
-/

namespace KingdoKernel

namespace Kernel
open Slab ListHead

/-- Taking a block of order `order` makes the allocator look for another current slab, with no slab in
the partial list and a chunk of 32 pages left in the buddy allocator. -/
def refills (k : Kernel) (order : ℕ) : Bool :=
  let sc := k.slabContainer order
  k.current sc ≠ 0 && k.mem.load (k.current sc + 32) 4 = 1 && listEmpty memLinks k.mem (sc + 8) &&
    (List.range' slabPageOrder 6).any fun j => (k.buddy.freeLists j).nrFree ≠ 0

end Kernel

namespace Kmalloc
open Slab Buddy Tiles ListHead Kernel

/-- The calls that hand out memory. -/
inductive Source where
  | kmalloc
  | slab
  | pages
deriving DecidableEq, Repr

/-- A pointer in the hands of a caller, and the size it was asked for with. -/
structure Alloc where
  ptr : ℕ
  size : ℕ
  source : Source
deriving DecidableEq, Repr

namespace Alloc

/-- The pointer is neither `NULL` nor `ZERO_SIZE_PTR`. -/
def Valid (a : Alloc) : Prop := a.ptr ≠ 0 ∧ a.ptr ≠ zeroSizePtr

instance : DecidablePred Valid := fun _ => inferInstanceAs (Decidable (_ ∧ _))

/-- The size of the memory behind the pointer. -/
def cap (a : Alloc) : ℕ := 2 ^ sizeClass a.size

/-- The memory behind the pointer. -/
def extent (a : Alloc) : Block := ⟨a.ptr, sizeClass a.size⟩

/-- Which sizes the calls serve. -/
def Sized (a : Alloc) : Prop :=
  0 < a.size ∧ a.size ≤ 2 ^ 22 ∧ (a.source = .slab → a.size ≤ 2048) ∧
    (a.source = .pages → 2048 < a.size ∧ a.cap = a.size)

/-- There is no memory behind the pointer. -/
def Missing (a : Alloc) : Prop := a.ptr = 0 ∨ (a.ptr = zeroSizePtr ∧ a.source = .kmalloc)

/-- A pointer that is missing has no memory behind it. -/
lemma Missing.not_valid {a : Alloc} (h : a.Missing) : ¬ a.Valid := by
  rintro ⟨h1, h2⟩
  rcases h with h | h
  · exact h1 h
  · exact h2 h.1

end Alloc

/-- The allocators, the pointers in the hands of callers, and for every order whether the last block
asked for was one that `Kernel.refills`. -/
structure Sys where
  kernel : Kernel
  live : List Alloc
  refilled : ℕ → Bool

/-- The calls, and the writes of callers. -/
inductive Op where
  | kmalloc (size : ℕ)
  | kfree (ptr : ℕ)
  | slabAlloc (size : ℕ)
  | slabFree (ptr : ℕ)
  | getPages (order : ℕ)
  | freePages (ptr : ℕ)
  | write (addr : ℕ) (byte : UInt8)
deriving DecidableEq, Repr

/-- The operation is a write of a caller. -/
def Op.isWrite : Op → Bool
  | .write _ _ => true
  | _ => false

namespace Sys

/-- The memory in the hands of callers. -/
def extents (S : Sys) : List Block := (S.live.filter fun a => a.Valid).map Alloc.extent

/-- Some caller holds the pointer `p` and got it from `source`. -/
def Holds (S : Sys) (p : ℕ) (source : Source) : Prop :=
  ∃ a ∈ S.live, a.ptr = p ∧ a.source = source

/-- The state after a call that has handed out `a`. -/
def take (S : Sys) (K : Kernel) (a : Alloc) : Sys :=
  ⟨K, a :: S.live, fun k => if Heap.Serves a.size k then S.kernel.refills k else S.refilled k⟩

/-- The state after a call that has taken `p` back. -/
def drop (S : Sys) (K : Kernel) (p : ℕ) (source : Source) : Sys :=
  ⟨K, S.live.eraseP fun a => a.ptr = p ∧ a.source = source, S.refilled⟩

end Sys

/-- The allocators driven by their callers. -/
def machine : Machine Fault Sys Op (Option ℕ) where
  enabled S op :=
    match op with
    | .kmalloc _ => True
    | .kfree p => S.Holds p .kmalloc
    | .slabAlloc _ => True
    | .slabFree p => S.Holds p .slab
    | .getPages order => order ≤ 10
    | .freePages p => S.Holds p .pages
    | .write x _ => ∃ a ∈ S.live, a.Valid ∧ a.ptr ≤ x ∧ x < a.ptr + a.cap
  exec S op :=
    match op with
    | .kmalloc size => do
      let (p, K) ← S.kernel.kmalloc size
      pure (some p, S.take K ⟨p, size, .kmalloc⟩)
    | .kfree p => do
      let K ← S.kernel.kfree p
      pure (none, S.drop K p .kmalloc)
    | .slabAlloc size => do
      let (p, K) ← S.kernel.slabAlloc size
      pure (some p, S.take K ⟨p, size, .slab⟩)
    | .slabFree p => do
      let (_, K) ← S.kernel.slabFree p
      pure (none, S.drop K p .slab)
    | .getPages order => do
      let (p, K) ← S.kernel.getPages order
      pure (some p, S.take K ⟨p, buddyChunkSize order, .pages⟩)
    | .freePages p => do
      let K ← S.kernel.freePages p
      pure (none, S.drop K p .pages)
    | .write x v => pure (none, ⟨S.kernel.withMem (Function.update S.kernel.mem x v), S.live, S.refilled⟩)

/-- The same calls on heaps, which know nothing of what callers write. -/
def heapMachine : Machine Fault Heap Op (Option ℕ) where
  enabled _ _ := True
  exec h op :=
    match op with
    | .kmalloc size => do
      let (p, h) ← h.kmalloc size
      pure (some p, h)
    | .kfree p => do
      let h ← h.kfree p
      pure (none, h)
    | .slabAlloc size => do
      let (p, h) ← h.slabAlloc size
      pure (some p, h)
    | .slabFree p => do
      let h ← h.slabFree p
      pure (none, h)
    | .getPages order => do
      let (p, h) ← h.getPages order
      pure (some p, h)
    | .freePages p => do
      let h ← h.freePages p
      pure (none, h)
    | .write _ _ => pure (none, h)

/-- The state `S` is represented by the heap `h`. -/
structure Good (img : Image) (S : Sys) (h : Heap) : Prop where
  rep : S.kernel.Rep h
  slabPoolG : S.kernel.slabPoolG = img.slabPoolG
  bounds : SameBounds (initRegion img.imgEnd) h.buddy
  held : ∃ pages, Heap.Inv S.kernel.slabPoolG h pages ∧ ∀ e, e ∈ S.extents ↔ e ∈ h.extents pages
  distinct : S.extents.Nodup
  known : ∀ a ∈ S.live, (a.Valid ∧ a.Sized) ∨ a.Missing
  refilled : ∀ k, 6 ≤ k → k ≤ 11 → (S.refilled k = true ↔ h.pool.Pristine k)
  releases : ∀ r ∈ S.kernel.releases, Attached r.mem S.kernel.slabPoolG r.slab

/-- The call takes back the last block in use of a slab. -/
def Sys.Empties (S : Sys) (op : Op) : Prop :=
  ∃ a ∈ S.live, (op = .kfree a.ptr ∨ op = .slabFree a.ptr) ∧ a.Valid ∧ a.size ≤ 2048 ∧
    ∀ c ∈ S.live, c.Valid → c.ptr / slabSize = a.ptr / slabSize → c = a

/-- What a step does to the memory and the slabs. -/
structure Effect (S : Sys) (op : Op) (S' : Sys) : Prop where
  keeps : op.isWrite = false → ∀ a ∈ S.live, a ∈ S'.live → a.Valid →
    ∀ x ∈ a.extent.pages, S'.kernel.mem x = S.kernel.mem x
  releases : (¬ S.Empties op ∧ S'.kernel.releases = S.kernel.releases) ∨
    (S.Empties op ∧ ∃ r, S'.kernel.releases = r :: S.kernel.releases)

variable {img : Image} {S S' : Sys} {h h' : Heap} {K K' : Kernel} {pages pages' : Set Block}

/-! ## The relation is kept -/

/-- The extents of a state are those of its valid pointers. -/
lemma mem_extents {e : Block} : e ∈ S.extents ↔ ∃ a ∈ S.live, a.Valid ∧ a.extent = e := by
  simp only [Sys.extents, List.mem_map, List.mem_filter, decide_eq_true_eq, and_assoc]

/-- `Kernel.refills` in terms of the heap. -/
lemma refills_iff {k : ℕ} (hr : K.Rep h) (hi : Heap.Inv K.slabPoolG h pages) (h6 : 6 ≤ k)
    (h11 : k ≤ 11) : K.refills k = true ↔ h.Refills k := by
  have hcur := current_refines hr h6 h11
  have hempty : listEmpty memLinks K.mem (K.slabContainer k + 8) = true ↔
      (h.pool.container k).partials = [] := by
    rw [slabContainer_eq, listEmpty_ring _ (hr.pool.ring k h6 h11), List.map_eq_nil_iff]
  have hbuddy : ((List.range' slabPageOrder 6).any fun j => (K.buddy.freeLists j).nrFree ≠ 0) = true ↔
      ¬ h.buddy.Exhausted 5 := by
    simp only [List.any_eq_true, List.mem_range'_1, decide_eq_true_eq, Exhausted, not_forall, hr.buddy,
      slabPageOrder, buddyMaxOrder, exists_prop]
    refine exists_congr fun j => ?_
    rw [and_assoc]
    refine and_congr_right fun _ => and_congr_right fun hj => ?_
    rw [hi.buddy.count j hj, Ne, List.length_eq_zero_iff]
  unfold refills Heap.Refills
  simp only [Bool.and_eq_true, decide_eq_true_eq, hempty, hbuddy, hcur, and_assoc]
  rw [← and_assoc (b := _ = 1)]
  refine and_congr_left fun _ => ?_
  cases hc : (h.pool.container k).current with
  | none => simp
  | some s =>
    obtain ⟨c, l, hs⟩ := hi.current_free hc
    have hcount := (hr.pool.header s _ hs).count
    have hs0 := (slab_address hi.layout hs).1
    simp only [Option.getD_some, hcount, List.length_cons]
    constructor
    · rintro ⟨-, hl⟩
      have hnil : l = [] := List.length_eq_zero_iff.1 (by omega)
      exact ⟨s, c, rfl, hnil ▸ hs⟩
    · rintro ⟨t, c', ht, hs'⟩
      cases ht
      rw [hs] at hs'
      cases hs'
      exact ⟨hs0, rfl⟩

/-- The memory behind a pointer, as a list of the extents before and after it. -/
lemma extents_append {l₁ l₂ : List Alloc} {a : Alloc} {r : ℕ → Bool} (ha : a.Valid) :
    (Sys.mk K (l₁ ++ a :: l₂) r).extents =
      (Sys.mk K l₁ r).extents ++ a.extent :: (Sys.mk K l₂ r).extents := by
  simp [Sys.extents, ha]

/-- The extents with one more pointer. -/
lemma extents_cons {l : List Alloc} {a : Alloc} {r : ℕ → Bool} :
    (Sys.mk K (a :: l) r).extents =
      if a.Valid then a.extent :: (Sys.mk K l r).extents else (Sys.mk K l r).extents := by
  by_cases ha : a.Valid <;> simp [Sys.extents, ha]

/-- A pointer to an extent is neither `NULL` nor `ZERO_SIZE_PTR`. -/
lemma valid_of_mem {base : ℕ} {a : Alloc} (hc : Heap.Core base h pages)
    (he : a.extent ∈ h.extents pages) : a.Valid := by
  obtain ⟨h1, h2, -⟩ := hc.extents_place he
  have hab := hc.above
  have hbd := hc.buddy.geo.bound
  have hge : 64 ≤ 2 ^ sizeClass a.size := two_pow_order_ge (le_max_left _ _)
  simp only [Alloc.extent] at h1 h2
  refine ⟨by omega, ?_⟩
  simp only [zeroSizePtr]
  omega

/-- A call has handed out `a`, or found no memory. -/
lemma Good.take (hg : Good img S h) (hi : Heap.Inv S.kernel.slabPoolG h pages)
    (hext : ∀ e, e ∈ S.extents ↔ e ∈ h.extents pages) {a : Alloc} {op : Op}
    (hf : Follows S.kernel h pages K' h' pages') (hrel : K'.releases = S.kernel.releases)
    (hp : ∀ j, h'.pool.Pristine j ↔ if Heap.Serves a.size j then h.Refills j else h.pool.Pristine j)
    (hop : ¬ S.Empties op)
    (ho : (h' = h ∧ pages' = pages ∧ a.Missing) ∨
      (a.Sized ∧ Heap.Took S.kernel.slabPoolG h pages a.extent h' pages')) :
    Good img (S.take K' a) h' ∧ Effect S op (S.take K' a) := by
  have hbase : (S.take K' a).kernel.slabPoolG = S.kernel.slabPoolG := hf.slabPoolG
  have hrefill : ∀ k, 6 ≤ k → k ≤ 11 → ((S.take K' a).refilled k = true ↔ h'.pool.Pristine k) := by
    intro k h6 h11
    rw [hp k, Sys.take]
    simp only []
    split_ifs
    · exact refills_iff hg.rep hi h6 h11
    · exact hg.refilled k h6 h11
  have hreleases : ∀ r ∈ (S.take K' a).kernel.releases,
      Attached r.mem (S.take K' a).kernel.slabPoolG r.slab := by
    intro r hr
    rw [hbase]
    exact hg.releases r (hrel ▸ hr)
  have hknown : ((a.Valid ∧ a.Sized) ∨ a.Missing) →
      ∀ c ∈ (S.take K' a).live, (c.Valid ∧ c.Sized) ∨ c.Missing :=
    fun ha => List.forall_mem_cons.2 ⟨ha, hg.known⟩
  -- what callers held before they hold afterwards
  have hkeeps : (∀ e, e ∈ S.extents → e ∈ h'.extents pages') → Effect S op (S.take K' a) := by
    intro hsub
    refine ⟨fun _ c hc _ hv x hx => ?_, .inl ⟨hop, hrel⟩⟩
    have he : c.extent ∈ S.extents := mem_extents.2 ⟨c, hc, hv, rfl⟩
    exact hf.keeps _ ((hext _).1 he) (hsub _ he) x hx
  rcases ho with ⟨rfl, rfl, hm⟩ | ⟨hs, ht⟩
  · have he : (S.take K' a).extents = S.extents := by
      rw [Sys.take, extents_cons, if_neg hm.not_valid]
      rfl
    refine ⟨⟨hf.rep, hbase.trans hg.slabPoolG, hg.bounds, ⟨pages', ?_, ?_⟩, ?_,
      hknown (.inr hm), hrefill, hreleases⟩, hkeeps fun e he => (hext e).1 he⟩
    · rw [hbase]
      exact hi
    · rw [he]
      exact hext
    · rw [he]
      exact hg.distinct
  · have hmem : a.extent ∈ h'.extents pages' := ht.extents ▸ Set.mem_insert _ _
    have hv : a.Valid := valid_of_mem ht.inv.toCore hmem
    have he : (S.take K' a).extents = a.extent :: S.extents := by
      rw [Sys.take, extents_cons, if_pos hv]
      rfl
    refine ⟨⟨hf.rep, hbase.trans hg.slabPoolG, hg.bounds.trans ht.bounds, ⟨pages', ?_, ?_⟩, ?_,
      hknown (.inl ⟨hv, hs⟩), hrefill, hreleases⟩, hkeeps fun e he => ?_⟩
    · rw [hbase]
      exact ht.inv
    · intro e
      rw [he, ht.extents, List.mem_cons, Set.mem_insert_iff, hext]
    · rw [he]
      exact List.nodup_cons.2 ⟨fun hm => ht.fresh ((hext _).1 hm), hg.distinct⟩
    · rw [ht.extents]
      exact Set.mem_insert_of_mem _ ((hext e).1 he)

/-- The entry that a call of `free` takes out of the list. -/
lemma holds_split {p : ℕ} {src : Source} (hh : S.Holds p src) :
    ∃ a l₁ l₂, a.ptr = p ∧ a.source = src ∧ S.live = l₁ ++ a :: l₂ ∧
      ∀ K, S.drop K p src = ⟨K, l₁ ++ l₂, S.refilled⟩ := by
  obtain ⟨a, ha, hp, hs⟩ := hh
  obtain ⟨c, l₁, l₂, -, hc, e1, e2⟩ :=
    List.exists_of_eraseP (p := fun a => decide (a.ptr = p ∧ a.source = src)) ha
      (decide_eq_true ⟨hp, hs⟩)
  obtain ⟨hcp, hcs⟩ := of_decide_eq_true hc
  exact ⟨c, l₁, l₂, hcp, hcs, e1, fun K => by rw [Sys.drop, e2]⟩

/-- A call has taken `a` back; if `a` is no pointer to memory, nothing has changed. -/
lemma Good.drop (hg : Good img S h) (hi : Heap.Inv S.kernel.slabPoolG h pages)
    (hext : ∀ e, e ∈ S.extents ↔ e ∈ h.extents pages) {a : Alloc} {l₁ l₂ : List Alloc} {op : Op}
    (hl : S.live = l₁ ++ a :: l₂)
    (hf : Follows S.kernel h pages K' h' pages')
    (hp : ∀ j, h'.pool.Pristine j ↔ h.pool.Pristine j)
    (hrel : (¬ S.Empties op ∧ K'.releases = S.kernel.releases) ∨
      (S.Empties op ∧ ∃ s m, K'.releases = ⟨s, m⟩ :: S.kernel.releases ∧
        Attached m S.kernel.slabPoolG s))
    (ho : (h' = h ∧ pages' = pages ∧ a.Missing) ∨
      (a.Valid ∧ Heap.Put S.kernel.slabPoolG h pages a.extent h' pages')) :
    Good img ⟨K', l₁ ++ l₂, S.refilled⟩ h' ∧ Effect S op ⟨K', l₁ ++ l₂, S.refilled⟩ := by
  have hsub : ∀ c ∈ l₁ ++ l₂, c ∈ S.live := by
    intro c hc
    rw [hl, List.mem_append, List.mem_cons]
    rw [List.mem_append] at hc
    tauto
  have hadd : (Sys.mk K' (l₁ ++ l₂) S.refilled).extents =
      (Sys.mk K' l₁ S.refilled).extents ++ (Sys.mk K' l₂ S.refilled).extents := by
    simp [Sys.extents]
  obtain ⟨K, live, refilled⟩ := S
  simp only [] at *
  subst hl
  have hext' : ∀ e, e ∈ (Sys.mk K' (l₁ ++ l₂) refilled).extents ↔ e ∈ h'.extents pages' := by
    intro e
    rcases ho with ⟨rfl, rfl, hm⟩ | ⟨hv, hput⟩
    · rw [← hext]
      simp [Sys.extents, hm.not_valid]
    · have hnd := hg.distinct
      rw [extents_append hv] at hnd
      have hnot := (List.nodup_cons.1 (List.nodup_middle.1 hnd)).1
      have he := hext e
      rw [extents_append hv, List.mem_append, List.mem_cons] at he
      rw [hput.extents, Set.mem_sdiff, Set.mem_singleton_iff, ← he]
      have hme : e ∈ (Sys.mk K' (l₁ ++ l₂) refilled).extents ↔
          e ∈ (Sys.mk K l₁ refilled).extents ++ (Sys.mk K l₂ refilled).extents := by
        rw [hadd]
        rfl
      rw [hme, List.mem_append]
      constructor
      · intro hm
        refine ⟨hm.elim .inl fun h => .inr (.inr h), ?_⟩
        rintro rfl
        exact hnot (List.mem_append.2 hm)
      · rintro ⟨h1 | h1 | h1, hne⟩
        · exact .inl h1
        · exact absurd h1 hne
        · exact .inr h1
  have hbase : K'.slabPoolG = K.slabPoolG := hf.slabPoolG
  refine ⟨⟨hf.rep, hbase.trans hg.slabPoolG, ?_, ⟨pages', ?_, hext'⟩, ?_, ?_, ?_, ?_⟩, ?_,
    hrel.imp_right fun ⟨h1, s, m, e, _⟩ => ⟨h1, _, e⟩⟩
  · rcases ho with ⟨rfl, -, -⟩ | ⟨-, hput⟩
    · exact hg.bounds
    · exact hg.bounds.trans hput.bounds
  · show Heap.Inv K'.slabPoolG h' pages'
    rw [hbase]
    rcases ho with ⟨rfl, rfl, -⟩ | ⟨-, hput⟩
    · exact hi
    · exact hput.inv
  · have hs : List.Sublist (l₁ ++ l₂) (l₁ ++ a :: l₂) :=
      List.Sublist.append_left (List.sublist_cons_self a l₂) l₁
    exact hg.distinct.sublist ((hs.filter _).map _)
  · exact fun c hc => hg.known c (hsub c hc)
  · exact fun k h6 h11 => (hg.refilled k h6 h11).trans (hp k).symm
  · intro r hr
    rw [hbase]
    rcases hrel with ⟨-, e⟩ | ⟨-, s, m, e, hat⟩
    · exact hg.releases r (e ▸ hr)
    · simp only [e, List.mem_cons] at hr
      rcases hr with rfl | hr
      · exact hat
      · exact hg.releases r hr
  · intro _ c hc hc' hv x hx
    refine hf.keeps _ ((hext _).1 (mem_extents.2 ⟨c, hc, hv, rfl⟩)) ?_ x hx
    exact (hext' _).1 (mem_extents.2 ⟨c, hc', hv, rfl⟩)

/-! ## Steps -/

/-- The step of both machines, and the relation after it. -/
def Steps (img : Image) (S : Sys) (h : Heap) (op : Op) : Prop :=
  ∃ o S' h', machine.exec S op = .ok (o, S') ∧ heapMachine.exec h op = .ok (o, h') ∧
    Good img S' h' ∧ Effect S op S'

/-- Only `kfree` and `slab_free` take back a last block. -/
lemma not_empties {op : Op} (h1 : ∀ p, op ≠ .kfree p) (h2 : ∀ p, op ≠ .slabFree p) :
    ¬ S.Empties op := by
  rintro ⟨a, -, e | e, -⟩
  · exact h1 _ e
  · exact h2 _ e

/-- Pointers to memory identify their entries. -/
lemma Good.eq_of_ptr (hg : Good img S h) (hi : Heap.Inv S.kernel.slabPoolG h pages)
    (hext : ∀ e, e ∈ S.extents ↔ e ∈ h.extents pages) {a c : Alloc} (ha : a ∈ S.live)
    (hc : c ∈ S.live) (hv : a.Valid) (e : a.ptr = c.ptr) : a = c := by
  have hvc : c.Valid := by
    unfold Alloc.Valid at hv ⊢
    rwa [← e]
  have hea := (hext _).1 (mem_extents.2 ⟨a, ha, hv, rfl⟩)
  have hec := (hext _).1 (mem_extents.2 ⟨c, hc, hvc, rfl⟩)
  have heq : a.extent = c.extent := by
    by_contra hne
    refine hi.toCore.extents_disjoint hea hec hne a.extent.start_mem ?_
    have hst : a.extent.start = c.extent.start := e
    rw [hst]
    exact c.extent.start_mem
  refine List.inj_on_of_nodup_map hg.distinct ?_ ?_ heq
  · exact List.mem_filter.2 ⟨ha, decide_eq_true hv⟩
  · exact List.mem_filter.2 ⟨hc, decide_eq_true hvc⟩

/-- The call takes back the last block in use of a slab, in terms of the heap. -/
lemma Good.empties_iff (hg : Good img S h) (hi : Heap.Inv S.kernel.slabPoolG h pages)
    (hext : ∀ e, e ∈ S.extents ↔ e ∈ h.extents pages) {a : Alloc} {op : Op} (ha : a ∈ S.live)
    (hv : a.Valid) (hop : op = .kfree a.ptr ∨ op = .slabFree a.ptr) :
    S.Empties op ↔ a.size ≤ 2048 ∧ h.IsLast pages a.ptr := by
  constructor
  · rintro ⟨c, hc, hop', hvc, hsz, hlast⟩
    have hptr : a.ptr = c.ptr := by
      rcases hop with rfl | rfl <;> rcases hop' with e | e
      · exact Op.kfree.inj e
      · cases e
      · cases e
      · exact Op.slabFree.inj e
    obtain rfl := hg.eq_of_ptr hi hext ha hc hv hptr
    refine ⟨hsz, fun e he hs => ?_⟩
    obtain ⟨c, hc, hvc, rfl⟩ := mem_extents.1 ((hext e).2 he)
    rw [hlast c hc hvc hs]
    rfl
  · rintro ⟨hsz, hlast⟩
    refine ⟨a, ha, hop, hv, hsz, fun c hc hvc hs => ?_⟩
    have hptr := hlast c.extent ((hext _).1 (mem_extents.2 ⟨c, hc, hvc, rfl⟩)) hs
    exact hg.eq_of_ptr hi hext hc ha hvc hptr

/-- `kmalloc` in a reached state. -/
lemma step_kmalloc (hg : Good img S h) (size : ℕ) : Steps img S h (.kmalloc size) := by
  obtain ⟨pages, hi, hext⟩ := hg.held
  obtain ⟨p, h', pages', e, hpg, ho⟩ : ∃ p h' pages', h.kmalloc size = .ok (p, h') ∧
      (size ≤ 2048 → pages' = pages) ∧
      ((h' = h ∧ pages' = pages ∧ (Alloc.mk p size .kmalloc).Missing) ∨
      ((Alloc.mk p size .kmalloc).Sized ∧
        Heap.Took S.kernel.slabPoolG h pages ⟨p, sizeClass size⟩ h' pages')) := by
    by_cases h0 : size = 0
    · refine ⟨zeroSizePtr, h, pages, ?_, fun _ => rfl, .inl ⟨rfl, rfl, .inr ⟨rfl, rfl⟩⟩⟩
      rw [Heap.kmalloc, if_pos h0]
    · by_cases h1 : size ≤ 2 ^ 22
      · rcases Heap.kmalloc_spec hi (Nat.pos_of_ne_zero h0) h1 with e | ⟨p, h', pages', e, ht, hp⟩
        · exact ⟨0, h, pages, e, fun _ => rfl, .inl ⟨rfl, rfl, .inl rfl⟩⟩
        · refine ⟨p, h', pages', e, hp, .inr ⟨⟨Nat.pos_of_ne_zero h0, h1, ?_, ?_⟩, ht⟩⟩
          · rintro ⟨⟩
          · rintro ⟨⟩
      · refine ⟨0, h, pages, ?_, fun _ => rfl, .inl ⟨rfl, rfl, .inl rfl⟩⟩
        rw [Heap.kmalloc, if_neg h0, if_neg (by omega), if_neg h1]
  obtain ⟨K', e', hf, hrel⟩ := kmalloc_follows hg.rep hi e
  refine ⟨some p, S.take K' ⟨p, size, .kmalloc⟩, h', ?_, ?_, hg.take hi hext (hf pages' hpg) hrel
    (Heap.kmalloc_pristine hi e) (not_empties (fun _ => Op.noConfusion) fun _ => Op.noConfusion) ho⟩
  · simp only [machine, e', ok_bind, pure_eq_ok]
  · simp only [heapMachine, e, ok_bind, pure_eq_ok]

/-- `slab_alloc` in a reached state. -/
lemma step_slabAlloc (hg : Good img S h) (size : ℕ) : Steps img S h (.slabAlloc size) := by
  obtain ⟨pages, hi, hext⟩ := hg.held
  obtain ⟨p, h', e, ho⟩ : ∃ p h', h.slabAlloc size = .ok (p, h') ∧
      ((h' = h ∧ pages = pages ∧ (Alloc.mk p size .slab).Missing) ∨
      ((Alloc.mk p size .slab).Sized ∧
        Heap.Took S.kernel.slabPoolG h pages ⟨p, sizeClass size⟩ h' pages)) := by
    by_cases hsz : 0 < size ∧ size ≤ 2048
    · rcases Heap.slabAlloc_spec hi hsz.1 hsz.2 with ⟨e, -⟩ | ⟨p, h', e, ht⟩
      · exact ⟨0, h, e, .inl ⟨rfl, rfl, .inl rfl⟩⟩
      · refine ⟨p, h', e, .inr ⟨⟨hsz.1, hsz.2.trans (by norm_num), fun _ => hsz.2, ?_⟩, ht⟩⟩
        rintro ⟨⟩
    · refine ⟨0, h, ?_, .inl ⟨rfl, rfl, .inl rfl⟩⟩
      rw [Heap.slabAlloc, sizeToSlabOrder_eq_none hsz]
  obtain ⟨K', e', hf, hrel⟩ := slabAlloc_follows hg.rep hi e
  refine ⟨some p, S.take K' ⟨p, size, .slab⟩, h', ?_, ?_, hg.take hi hext hf hrel
    (Heap.slabAlloc_pristine hi e) (not_empties (fun _ => Op.noConfusion) fun _ => Op.noConfusion) ho⟩
  · simp only [machine, e', ok_bind, pure_eq_ok]
  · simp only [heapMachine, e, ok_bind, pure_eq_ok]

/-- The size of a chunk is its own size class. -/
lemma sizeClass_chunk (k : ℕ) : sizeClass (buddyChunkSize k) = 12 + k := by
  have e : buddyChunkSize k = 2 ^ (12 + k) := rfl
  rw [sizeClass, e, Nat.clog_pow 2 _ (by norm_num)]
  omega

/-- `get_pages` in a reached state. -/
lemma step_getPages (hg : Good img S h) {order : ℕ} (ho : order ≤ 10) :
    Steps img S h (.getPages order) := by
  obtain ⟨pages, hi, hext⟩ := hg.held
  have hlo : 2048 < buddyChunkSize order := by
    have : 2 ^ 12 ≤ 2 ^ (12 + order) := Nat.pow_le_pow_right (by norm_num) (by omega)
    exact lt_of_lt_of_le (by norm_num) this
  have hhi : buddyChunkSize order ≤ 2 ^ 22 := Nat.pow_le_pow_right (by norm_num) (by omega)
  obtain ⟨p, h', pages', e, ho⟩ : ∃ p h' pages', h.getPages order = .ok (p, h') ∧
      ((h' = h ∧ pages' = pages ∧ (Alloc.mk p (buddyChunkSize order) .pages).Missing) ∨
      ((Alloc.mk p (buddyChunkSize order) .pages).Sized ∧
        Heap.Took S.kernel.slabPoolG h pages (Alloc.mk p (buddyChunkSize order) .pages).extent h'
          pages')) := by
    rcases Heap.getPages_spec hi ho with e | ⟨p, h', pages', e, ht⟩
    · exact ⟨0, h, pages, e, .inl ⟨rfl, rfl, .inl rfl⟩⟩
    · refine ⟨p, h', pages', e, .inr ⟨⟨Nat.zero_lt_of_lt hlo, hhi, ?_, fun _ => ⟨hlo, ?_⟩⟩, ?_⟩⟩
      · rintro ⟨⟩
      · rw [Alloc.cap, sizeClass_chunk]
        rfl
      · rw [Alloc.extent, sizeClass_chunk]
        exact ht
  obtain ⟨K', e', hf, hrel⟩ := getPages_follows pages pages' hg.rep e
  refine ⟨some p, S.take K' ⟨p, buddyChunkSize order, .pages⟩, h', ?_, ?_,
    hg.take hi hext hf hrel (fun j => ?_)
      (not_empties (fun _ => Op.noConfusion) fun _ => Op.noConfusion) ho⟩
  · simp only [machine, e', ok_bind, pure_eq_ok]
  · simp only [heapMachine, e, ok_bind, pure_eq_ok]
  · rw [Heap.getPages_pool e, if_neg]
    rintro ⟨-, h2, -⟩
    exact absurd hlo (not_lt.2 h2)

/-- `NULL` is no address of the region. -/
lemma virtToPage_zero {base : ℕ} (hc : Heap.Core base h pages) : h.buddy.virtToPage 0 = none := by
  have hab := hc.above
  exact hc.buddy.geo.virtToPage_of_not_mem (.inl (by omega))

/-- Taking back a pointer without memory behind it. -/
lemma Good.drop_missing (hg : Good img S h) {a : Alloc} {l₁ l₂ : List Alloc} {op : Op}
    (hl : S.live = l₁ ++ a :: l₂) (hm : a.Missing)
    (hop : ∀ p, op = .kfree p ∨ op = .slabFree p → p = a.ptr) :
    Good img ⟨S.kernel, l₁ ++ l₂, S.refilled⟩ h ∧ Effect S op ⟨S.kernel, l₁ ++ l₂, S.refilled⟩ := by
  obtain ⟨pages, hi, hext⟩ := hg.held
  refine hg.drop hi hext hl (Follows.refl hg.rep _ _) (fun _ => Iff.rfl) (.inl ⟨?_, rfl⟩)
    (.inl ⟨rfl, rfl, hm⟩)
  rintro ⟨c, -, hc, hvc, -⟩
  refine hm.not_valid ?_
  have hptr := hop _ hc
  unfold Alloc.Valid at hvc ⊢
  rwa [← hptr]

/-- `kfree` in a reached state. -/
lemma step_kfree (hg : Good img S h) {p : ℕ} (hh : S.Holds p .kmalloc) : Steps img S h (.kfree p) := by
  obtain ⟨pages, hi, hext⟩ := hg.held
  obtain ⟨a, l₁, l₂, rfl, -, hl, hd⟩ := holds_split hh
  have ha : a ∈ S.live := by
    rw [hl]
    exact List.mem_append_right _ List.mem_cons_self
  rcases hg.known a ha with ⟨hv, hsz⟩ | hm
  · have hae := (hext _).1 (mem_extents.2 ⟨a, ha, hv, rfl⟩)
    obtain ⟨h', pages', e, hput, hpg⟩ := Heap.kfree_spec hi (k := sizeClass a.size) hae hv.2
    obtain ⟨K', e', hf, hset⟩ := kfree_follows hg.rep hi hae hv.2 e
    refine ⟨none, S.drop K' a.ptr .kmalloc, h', ?_, ?_, ?_⟩
    · simp only [machine, e', ok_bind, pure_eq_ok]
    · simp only [heapMachine, e, ok_bind, pure_eq_ok]
    · rw [hd]
      refine hg.drop hi hext hl (hf pages' hpg) (Heap.kfree_pristine hi hae e) ?_ (.inr ⟨hv, hput⟩)
      rw [hg.empties_iff hi hext ha hv (.inl rfl)]
      -- the size tells blocks of slabs and whole pages apart
      rcases hset with ⟨hk, ⟨hl, hr⟩ | ⟨hl, hr⟩⟩ | ⟨hk, hr⟩
      · exact .inl ⟨fun h => hl h.2, hr⟩
      · refine .inr ⟨⟨?_, hl⟩, hr⟩
        by_contra hgt
        have := (sizeClass_ge_twelve (not_le.1 hgt) hsz.2.1).1
        omega
      · refine .inl ⟨fun h => ?_, hr⟩
        have := (sizeClass_le_eleven h.1).2
        omega
  · have hK : S.kernel.kfree a.ptr = .ok S.kernel := by
      rcases hm with e | ⟨e, -⟩
      · rw [kfree, e, if_neg (by decide), hg.rep.buddy, virtToPage_zero hi.toCore]
      · rw [kfree, if_pos e]
    have hh : h.kfree a.ptr = .ok h := by
      rcases hm with e | ⟨e, -⟩
      · rw [Heap.kfree, e, if_neg (by decide), virtToPage_zero hi.toCore]
      · rw [Heap.kfree, if_pos e]
    refine ⟨none, S.drop S.kernel a.ptr .kmalloc, h, ?_, ?_, ?_⟩
    · simp only [machine, hK, ok_bind, pure_eq_ok]
    · simp only [heapMachine, hh, ok_bind, pure_eq_ok]
    · rw [hd]
      refine hg.drop_missing hl hm fun q hq => ?_
      rcases hq with e | e
      · exact (Op.kfree.inj e).symm
      · cases e

/-- `slab_free` in a reached state. -/
lemma step_slabFree (hg : Good img S h) {p : ℕ} (hh : S.Holds p .slab) :
    Steps img S h (.slabFree p) := by
  obtain ⟨pages, hi, hext⟩ := hg.held
  obtain ⟨a, l₁, l₂, rfl, hsrc, hl, hd⟩ := holds_split hh
  have ha : a ∈ S.live := by
    rw [hl]
    exact List.mem_append_right _ List.mem_cons_self
  rcases hg.known a ha with ⟨hv, hsz⟩ | hm
  · have hae := (hext _).1 (mem_extents.2 ⟨a, ha, hv, rfl⟩)
    have hle := hsz.2.2.1 hsrc
    have hal : (⟨a.ptr, sizeClass a.size⟩ : Block) ∈ h.pool.live := by
      refine hae.resolve_right fun he => ?_
      have h1 := Heap.order_pageExtents he
      have h2 := (sizeClass_le_eleven hle).2
      simp only [Alloc.extent] at h1
      omega
    obtain ⟨h', e, hput⟩ := Heap.slabFree_spec hi hal
    obtain ⟨K', e', hf, hset⟩ := slabFree_follows hg.rep hi hal e
    refine ⟨none, S.drop K' a.ptr .slab, h', ?_, ?_, ?_⟩
    · simp only [machine, e', ok_bind, pure_eq_ok]
    · simp only [heapMachine, e, ok_bind, pure_eq_ok]
    · rw [hd]
      refine hg.drop hi hext hl hf (Heap.slabFree_pristine hi hal e) ?_ (.inr ⟨hv, hput⟩)
      rw [hg.empties_iff hi hext ha hv (.inr rfl)]
      rcases hset with ⟨hl, hr⟩ | ⟨hl, hr⟩
      · exact .inl ⟨fun h => hl h.2, hr⟩
      · exact .inr ⟨⟨hle, hl⟩, hr⟩
  · have h0 : a.ptr = 0 := hm.resolve_right fun h => by
      rw [hsrc] at h
      cases h.2
    have hK : S.kernel.slabFree a.ptr = .ok (-einval, S.kernel) := by rw [slabFree, if_pos h0]
    have hh : h.slabFree a.ptr = .ok h := by rw [Heap.slabFree, if_pos h0]
    refine ⟨none, S.drop S.kernel a.ptr .slab, h, ?_, ?_, ?_⟩
    · simp only [machine, hK, ok_bind, pure_eq_ok]
    · simp only [heapMachine, hh, ok_bind, pure_eq_ok]
    · rw [hd]
      refine hg.drop_missing hl hm fun q hq => ?_
      rcases hq with e | e
      · cases e
      · exact (Op.slabFree.inj e).symm

/-- `free_pages` in a reached state. -/
lemma step_freePages (hg : Good img S h) {p : ℕ} (hh : S.Holds p .pages) :
    Steps img S h (.freePages p) := by
  obtain ⟨pages, hi, hext⟩ := hg.held
  obtain ⟨a, l₁, l₂, rfl, hsrc, hl, hd⟩ := holds_split hh
  have ha : a ∈ S.live := by
    rw [hl]
    exact List.mem_append_right _ List.mem_cons_self
  have hop : ¬ S.Empties (.freePages a.ptr) :=
    not_empties (fun _ => Op.noConfusion) fun _ => Op.noConfusion
  rcases hg.known a ha with ⟨hv, hsz⟩ | hm
  · have hae := (hext _).1 (mem_extents.2 ⟨a, ha, hv, rfl⟩)
    have hgt := (hsz.2.2.2 hsrc).1
    have hap : (⟨a.ptr, sizeClass a.size⟩ : Block) ∈ h.pageExtents pages := by
      refine hae.resolve_left fun he => ?_
      have h1 := (hi.toCore.order_live he).2
      have h2 := (sizeClass_ge_twelve hgt hsz.2.1).1
      simp only [Alloc.extent] at h1
      omega
    obtain ⟨h', pages', e, hput⟩ := Heap.freePages_spec hi hap
    obtain ⟨K', e', hf, hrel⟩ := freePages_follows pages pages' hg.rep e
    refine ⟨none, S.drop K' a.ptr .pages, h', ?_, ?_, ?_⟩
    · simp only [machine, e', ok_bind, pure_eq_ok]
    · simp only [heapMachine, e, ok_bind, pure_eq_ok]
    · rw [hd]
      refine hg.drop hi hext hl hf (fun j => ?_) (.inl ⟨hop, hrel⟩) (.inr ⟨hv, hput⟩)
      rw [Heap.freePages_pool e]
  · have h0 : a.ptr = 0 := hm.resolve_right fun h => by
      rw [hsrc] at h
      cases h.2
    have hK : S.kernel.freePages a.ptr = .ok S.kernel := by
      rw [freePages, h0, hg.rep.buddy, virtToPage_zero hi.toCore]
    have hh : h.freePages a.ptr = .ok h := by
      rw [Heap.freePages, h0, virtToPage_zero hi.toCore]
    refine ⟨none, S.drop S.kernel a.ptr .pages, h, ?_, ?_, ?_⟩
    · simp only [machine, hK, ok_bind, pure_eq_ok]
    · simp only [heapMachine, hh, ok_bind, pure_eq_ok]
    · rw [hd]
      refine hg.drop_missing hl hm fun q hq => ?_
      rcases hq with e | e <;> cases e

/-- Bytes that do not represent the heap may hold anything. -/
lemma Good.withMem (hg : Good img S h) {m : Mem}
    (hm : ∀ x, h.pool.Owns S.kernel.slabPoolG x → m x = S.kernel.mem x) :
    Good img ⟨S.kernel.withMem m, S.live, S.refilled⟩ h := by
  obtain ⟨pages, hi, hext⟩ := hg.held
  exact ⟨⟨hg.rep.buddy, hg.rep.pool.congr hi.layout hm⟩, hg.slabPoolG, hg.bounds, ⟨pages, hi, hext⟩,
    hg.distinct, hg.known, hg.refilled, hg.releases⟩

/-- Callers do not write to bytes that represent the heap. -/
lemma step_write (hg : Good img S h) {x : ℕ} {v : UInt8}
    (hen : ∃ a ∈ S.live, a.Valid ∧ a.ptr ≤ x ∧ x < a.ptr + a.cap) :
    Steps img S h (.write x v) := by
  obtain ⟨pages, hi, hext⟩ := hg.held
  obtain ⟨a, ha, hv, hx⟩ := hen
  have hae := (hext _).1 (mem_extents.2 ⟨a, ha, hv, rfl⟩)
  have hnot := hi.toCore.extents_not_owns hae (x := x) hx
  refine ⟨none, ⟨S.kernel.withMem (Function.update S.kernel.mem x v), S.live, S.refilled⟩, h, rfl, rfl,
    hg.withMem fun y hy => Function.update_of_ne ?_ _ _,
    fun h => Bool.noConfusion h, .inl ⟨not_empties (fun _ => Op.noConfusion) fun _ => Op.noConfusion, rfl⟩⟩
  rintro rfl
  exact hnot hy

/-- What a step does. -/
lemma step {op : Op} (hg : Good img S h) (hen : machine.enabled S op) : Steps img S h op := by
  cases op with
  | kmalloc size => exact step_kmalloc hg size
  | kfree p => exact step_kfree hg hen
  | slabAlloc size => exact step_slabAlloc hg size
  | slabFree p => exact step_slabFree hg hen
  | getPages order => exact step_getPages hg hen
  | freePages p => exact step_freePages hg hen
  | write x v => exact step_write hg hen

/-- The machine on heaps takes the same steps. -/
lemma machine_simulates (img : Image) : machine.Simulates heapMachine (Good img) := by
  intro S h op hg hen
  obtain ⟨o, S', h', e, e', hg', -⟩ := step hg hen
  exact ⟨o, S', h', e, trivial, e', hg'⟩

/-! ## Runs from the initial state -/

/-- The initial state: callers hold nothing. -/
def Sys.start (K : Kernel) : Sys := ⟨K, [], fun _ => false⟩

/-- The kernel after `init_buddy` and `init_slab`, and the heap it represents. -/
lemma boot_good (img : Image) (m : Mem) (ha : HasAlignedPage (initRegion img.imgEnd)) :
    ∃ K h, boot img m = .ok K ∧ Good img (.start K) h ∧ Heap.Inv img.slabPoolG h ∅ ∧
      h.pool = Pool.empty ∧ K.releases = [] := by
  obtain ⟨K, h, e, hr, hi, hext, hpool, hg, hrel, hb⟩ := boot_spec img m ha
  refine ⟨K, h, e, ⟨hr, hg, hb, ⟨∅, hi, ?_⟩, List.nodup_nil, ?_, ?_, ?_⟩, hg ▸ hi, hpool, hrel⟩
  · intro x
    rw [hext]
    simp [Sys.extents, Sys.start]
  · rintro a ⟨⟩
  · intro k _ _
    refine iff_of_false Bool.false_ne_true (Pool.not_pristine_of_none ?_)
    rw [hpool]
    rfl
  · intro r hr
    have hr' : r ∈ K.releases := hr
    rw [hrel] at hr'
    cases hr'

/-- Every reached state is represented by a heap. -/
lemma Good.run {ops : List Op} {os : List (Option ℕ)} (hg : Good img S h)
    (r : machine.Run S ops os S') : ∃ h', heapMachine.Run h ops os h' ∧ Good img S' h' :=
  (machine_simulates img).run r hg

/-- What a call of `kmalloc` does to the callers' view. -/
lemma exec_kmalloc {size : ℕ} {o : Option ℕ} (e : machine.exec S (.kmalloc size) = .ok (o, S')) :
    ∃ p K', o = some p ∧ S' = S.take K' ⟨p, size, .kmalloc⟩ := by
  obtain ⟨⟨p, K'⟩, -, e⟩ := bind_eq_ok.1 e
  cases e
  exact ⟨p, K', rfl, rfl⟩

/-- What a call of `slab_alloc` does to the callers' view. -/
lemma exec_slabAlloc {size : ℕ} {o : Option ℕ} (e : machine.exec S (.slabAlloc size) = .ok (o, S')) :
    ∃ p K', o = some p ∧ S' = S.take K' ⟨p, size, .slab⟩ := by
  obtain ⟨⟨p, K'⟩, -, e⟩ := bind_eq_ok.1 e
  cases e
  exact ⟨p, K', rfl, rfl⟩

end Kmalloc

end KingdoKernel
