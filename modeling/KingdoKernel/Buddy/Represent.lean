import KingdoKernel.Buddy.Memory
import KingdoKernel.Buddy.Footprint

/-!
# Buddy states in memory

`Rep g m s` says that the bytes of `m` represent the state `s`, `memory_region_g` being at `g`: the
words of the region, the fields of every descriptor, and a ring for every free list. `Refines` adds that
the bytes outside the region and the descriptors (`Owns`) are kept. There is one lemma for each of the
updates `Buddy/Basic.lean` is made of; the links, the counters and the other fields lie in different
bytes, so that an update of one of them keeps the others.
-/

namespace KingdoKernel.MemRegion
open Buddy ListHead LinkHeap

/-- The address of the descriptor of `p`. -/
def descriptor (s : Buddy) (p : ℕ) : ℕ := s.pageArrry + p * sizeofPage

/-- `memory_region_g` lies below the descriptors, and these do not wrap around. -/
structure Layout (g : ℕ) (s : Buddy) : Prop where
  below : g + 304 ≤ s.pageArrry
  fits : s.pageArrry + s.pageNum * sizeofPage ≤ 2 ^ 64

/-- The bytes of the allocator: `memory_region_g` and the descriptors. -/
def Owns (g : ℕ) (s : Buddy) (x : ℕ) : Prop :=
  (g ≤ x ∧ x < g + 304) ∨ (s.pageArrry ≤ x ∧ x < s.pageArrry + s.pageNum * sizeofPage)

/-- Where the `struct list_head`s of the allocator are. -/
def nodes (g : ℕ) (s : Buddy) : Set ℕ :=
  {a | (∃ k < buddyMaxOrder, a = freeListAt g k) ∨ ∃ p < s.pageNum, a = descriptor s p}

/-- The bytes of links. -/
def IsLink (g : ℕ) (s : Buddy) (x : ℕ) : Prop := ∃ n ∈ nodes g s, n ≤ x ∧ x < n + 16

/-- The descriptors linked into each free list, by the address of the list. -/
def rings (g : ℕ) (s : Buddy) (a : ℕ) : Option (List ℕ) :=
  if g + 40 ≤ a ∧ (a - (g + 40)) % 24 = 0 ∧ (a - (g + 40)) / 24 < buddyMaxOrder then
    some ((s.freeLists ((a - (g + 40)) / 24)).freeList.map (descriptor s))
  else none

/-- The bounds in `memory_region_g`. -/
structure Words (g : ℕ) (m : Mem) (s : Buddy) : Prop where
  startAddr : startAddr m g = s.startAddr
  size : size m g = s.size
  pageArrry : pageArrry m g = s.pageArrry
  pageNum : pageNum m g = s.pageNum

/-- The fields of a descriptor. -/
structure PageAt (m : Mem) (a : ℕ) (pg : Page) : Prop where
  allocated : allocated m a = pg.allocated
  order : order m a = pg.order
  slab : m.load (a + 24) 8 = pg.slab

/-- The memory represents the state. -/
structure Rep (g : ℕ) (m : Mem) (s : Buddy) : Prop where
  words : Words g m s
  nrFree : ∀ k < buddyMaxOrder, nrFree m (freeListAt g k) = (s.freeLists k).nrFree
  page : ∀ p < s.pageNum, PageAt m (descriptor s p) (s.pages p)
  rings : memLinks.Rings (nodes g s) m (rings g s)

/-- From `m` to `m'` only bytes of the allocator change, and `m'` represents `s'`. -/
structure Refines (g : ℕ) (m : Mem) (s : Buddy) (m' : Mem) (s' : Buddy) : Prop where
  rep : Rep g m' s'
  bounds : SameBounds s s'
  keeps : ∀ x, ¬ Owns g s x → m' x = m x

section Bounds

variable {g : ℕ} {s s' : Buddy}

/-- The layout depends on the bounds only. -/
lemma Layout.congr (hl : Layout g s) (hb : SameBounds s s') : Layout g s' := by
  obtain ⟨-, -, ha, hn⟩ := hb
  refine ⟨?_, ?_⟩
  · rw [ha]
    exact hl.below
  · rw [ha, hn]
    exact hl.fits

/-- The address of a descriptor depends on the bounds only. -/
lemma descriptor_congr (hb : SameBounds s s') (p : ℕ) : descriptor s' p = descriptor s p := by
  rw [descriptor, descriptor, hb.2.2.1]

/-- Which bytes the allocator owns depends on the bounds only. -/
lemma owns_congr (hb : SameBounds s s') (x : ℕ) : Owns g s' x ↔ Owns g s x := by
  rw [Owns, Owns, hb.2.2.1, hb.2.2.2]

end Bounds

/-- Nothing is done on both sides. -/
lemma Refines.refl {g : ℕ} {m : Mem} {s : Buddy} (h : Rep g m s) : Refines g m s m s :=
  ⟨h, SameBounds.refl s, fun _ _ => rfl⟩

/-- Two steps one after the other. -/
lemma Refines.trans {g : ℕ} {m m' m'' : Mem} {s s' s'' : Buddy} (h : Refines g m s m' s')
    (h' : Refines g m' s' m'' s'') : Refines g m s m'' s'' := by
  refine ⟨h'.rep, h.bounds.trans h'.bounds, fun x hx => ?_⟩
  rw [h'.keeps x fun ho => hx ((owns_congr h.bounds x).1 ho), h.keeps x hx]

/-! ## Which bytes are links -/

section Links

variable {g : ℕ} {s : Buddy}

/-- The heads of the lists are nodes. -/
lemma freeListAt_mem {k : ℕ} (hk : k < buddyMaxOrder) : freeListAt g k ∈ nodes g s :=
  .inl ⟨k, hk, rfl⟩

/-- The descriptors of the region are nodes. -/
lemma descriptor_mem {p : ℕ} (hp : p < s.pageNum) : descriptor s p ∈ nodes g s :=
  .inr ⟨p, hp, rfl⟩

/-- Links are bytes of the allocator. -/
lemma IsLink.owns {x : ℕ} (h : IsLink g s x) : Owns g s x := by
  obtain ⟨n, ⟨k, hk, rfl⟩ | ⟨p, hp, rfl⟩, h1, h2⟩ := h
  · simp only [freeListAt, buddyMaxOrder] at *
    exact .inl ⟨by omega, by omega⟩
  · simp only [descriptor, sizeofPage] at *
    exact .inr ⟨by omega, by simp only [sizeofPage]; omega⟩

variable (hl : Layout g s)
include hl

/-- The nodes of the allocator do not overlap. -/
lemma nodes_nodes : Nodes (nodes g s) := by
  have h1 := hl.below
  have h2 := hl.fits
  simp only [sizeofPage] at h2
  refine ⟨?_, ?_⟩
  · rintro a (⟨k, hk, rfl⟩ | ⟨p, hp, rfl⟩)
    · simp only [freeListAt, buddyMaxOrder] at *
      omega
    · simp only [descriptor, sizeofPage]
      omega
  · rintro a (⟨k, hk, rfl⟩ | ⟨p, hp, rfl⟩) b (⟨j, hj, rfl⟩ | ⟨q, hq, rfl⟩) hne
    · simp only [freeListAt] at *
      omega
    · simp only [freeListAt, descriptor, sizeofPage, buddyMaxOrder] at *
      omega
    · simp only [freeListAt, descriptor, sizeofPage, buddyMaxOrder] at *
      omega
    · simp only [descriptor, sizeofPage] at *
      omega

/-- The nodes do not overlap. -/
lemma nodes_lawful : memLinks.Lawful (nodes g s) :=
  memLinks_lawful (nodes_nodes hl).lt (nodes_nodes hl).apart

/-- The words before the free lists are no links. -/
lemma not_isLink_words {x : ℕ} (h2 : x < g + 40) : ¬ IsLink g s x := by
  have hb := hl.below
  rintro ⟨n, ⟨k, hk, rfl⟩ | ⟨p, hp, rfl⟩, h3, h4⟩
  · simp only [freeListAt] at *
    omega
  · simp only [descriptor] at *
    omega

/-- The counters are no links. -/
lemma not_isLink_nrFree {k x : ℕ} (hk : k < buddyMaxOrder) (h1 : freeListAt g k + 16 ≤ x)
    (h2 : x < freeListAt g k + 24) : ¬ IsLink g s x := by
  have hb := hl.below
  rintro ⟨n, ⟨j, hj, rfl⟩ | ⟨p, hp, rfl⟩, h3, h4⟩
  · simp only [freeListAt] at *
    omega
  · simp only [freeListAt, descriptor, buddyMaxOrder] at *
    omega

/-- The fields of the descriptors are no links. -/
lemma not_isLink_page {p x : ℕ} (h1 : descriptor s p + 16 ≤ x) (h2 : x < descriptor s p + 32) :
    ¬ IsLink g s x := by
  have hb := hl.below
  rintro ⟨n, ⟨j, hj, rfl⟩ | ⟨q, hq, rfl⟩, h3, h4⟩
  · simp only [freeListAt, descriptor, buddyMaxOrder] at *
    omega
  · simp only [descriptor, sizeofPage] at *
    omega

end Links

/-! ## What the representation depends on -/

section Congr

variable {g : ℕ} {m m' : Mem} {s : Buddy}

/-- A descriptor depends on its own bytes only. -/
lemma PageAt.congr {a : ℕ} {pg : Page} (h : PageAt m a pg)
    (hm : ∀ x, a + 16 ≤ x → x < a + 32 → m' x = m x) : PageAt m' a pg := by
  refine ⟨?_, ?_, ?_⟩
  · rw [← h.allocated]
    exact Mem.load_congr fun x h1 h2 => hm x (by omega) (by omega)
  · rw [← h.order]
    exact Mem.load_congr fun x h1 h2 => hm x (by omega) (by omega)
  · rw [← h.slab]
    exact Mem.load_congr fun x h1 h2 => hm x (by omega) (by omega)

/-- The globals depend on their own bytes only. -/
lemma Words.congr (h : Words g m s) (hm : ∀ x, g ≤ x → x < g + 32 → m' x = m x) : Words g m' s := by
  refine ⟨?_, ?_, ?_, ?_⟩
  · rw [← h.startAddr]
    exact Mem.load_congr fun x h1 h2 => hm x (by omega) (by omega)
  · rw [← h.size]
    exact Mem.load_congr fun x h1 h2 => hm x (by omega) (by omega)
  · rw [← h.pageArrry]
    exact Mem.load_congr fun x h1 h2 => hm x (by omega) (by omega)
  · rw [← h.pageNum]
    exact Mem.load_congr fun x h1 h2 => hm x (by omega) (by omega)

/-- A counter depends on its own bytes only. -/
lemma nrFree_congr {a : ℕ} (hm : ∀ x, a + 16 ≤ x → x < a + 24 → m' x = m x) :
    nrFree m' a = nrFree m a :=
  Mem.load_congr fun x h1 h2 => hm x (by omega) (by omega)

/-- The lists depend on the bytes of the links only. -/
lemma rings_congr {S : ℕ → Option (List ℕ)} (h : memLinks.Rings (nodes g s) m S) (hm : ∀ x, IsLink g s x → m' x = m x) :
    memLinks.Rings (nodes g s) m' S := by
  refine h.frame (fun n hn => ?_) (fun n hn => ?_)
  · exact Mem.load_congr fun x h1 h2 => hm x ⟨n, hn, by omega, by omega⟩
  · exact Mem.load_congr fun x h1 h2 => hm x ⟨n, hn, by omega, by omega⟩

/-- Representing a state depends on the bytes of the allocator only. -/
lemma Rep.congr (h : Rep g m s) (hm : ∀ x, Owns g s x → m' x = m x) : Rep g m' s := by
  refine ⟨h.words.congr fun x h1 h2 => hm x (.inl ⟨h1, by omega⟩), fun k hk => ?_, fun p hp => ?_,
    rings_congr h.rings fun x hx => hm x hx.owns⟩
  · rw [← h.nrFree k hk]
    refine nrFree_congr fun x h1 h2 => hm x (.inl ?_)
    simp only [freeListAt, buddyMaxOrder] at *
    omega
  · refine (h.page p hp).congr fun x h1 h2 => hm x (.inr ?_)
    simp only [descriptor, sizeofPage] at *
    omega

end Congr

/-! ## The rings of a state -/

section Rings

variable {g : ℕ} {s : Buddy} {k : ℕ}

/-- The list of an order, as addresses of descriptors. -/
lemma rings_freeListAt (hk : k < buddyMaxOrder) :
    rings g s (freeListAt g k) = some ((s.freeLists k).freeList.map (descriptor s)) := by
  have e : (freeListAt g k - (g + 40)) / 24 = k := by
    rw [freeListAt]
    omega
  have e' : (freeListAt g k - (g + 40)) % 24 = 0 := by
    rw [freeListAt]
    omega
  rw [rings, e, if_pos ⟨Nat.le_add_right _ _, e', hk⟩]

/-- Every list is the one of an order. -/
lemma rings_eq_some {a : ℕ} {xs : List ℕ} (h : rings g s a = some xs) :
    ∃ k < buddyMaxOrder, a = freeListAt g k ∧ xs = (s.freeLists k).freeList.map (descriptor s) := by
  rw [rings] at h
  split_ifs at h with hc
  · refine ⟨_, hc.2.2, ?_, (Option.some.inj h).symm⟩
    rw [freeListAt]
    omega

/-- The rings after one of the free lists has been replaced. -/
lemma rings_update (hk : k < buddyMaxOrder) (l : FreeList) :
    rings g { s with freeLists := Function.update s.freeLists k l } =
      Function.update (rings g s) (freeListAt g k) (some (l.freeList.map (descriptor s))) := by
  funext a
  by_cases ha : a = freeListAt g k
  · subst ha
    rw [rings_freeListAt hk, Function.update_self]
    simp only [Function.update_self]
    rfl
  · rw [Function.update_of_ne ha]
    simp only [rings]
    split_ifs with hc
    · have hne : (a - (g + 40)) / 24 ≠ k := by
        intro e
        rw [freeListAt] at ha
        omega
      rw [Function.update_of_ne hne]
      rfl
    · rfl

/-- A page in none of the free lists. -/
def Unlisted (s : Buddy) (p : ℕ) : Prop := ∀ k < buddyMaxOrder, p ∉ (s.freeLists k).freeList

/-- Descriptors at one address are the same. -/
lemma descriptor_inj {p q : ℕ} (h : descriptor s p = descriptor s q) : p = q := by
  simp only [descriptor, sizeofPage] at h
  omega

/-- A page is in a list when its descriptor is. -/
lemma mem_map_descriptor {p : ℕ} {l : List ℕ} : descriptor s p ∈ l.map (descriptor s) ↔ p ∈ l := by
  rw [List.mem_map]
  constructor
  · rintro ⟨q, hq, e⟩
    rwa [← descriptor_inj e]
  · exact fun hp => ⟨p, hp, rfl⟩

/-- The descriptor of an unlisted page is in no ring. -/
lemma Unlisted.unlinked {p : ℕ} (hl : Layout g s) (hp : Unlisted s p) :
    Unlinked (rings g s) (descriptor s p) := by
  have hb := hl.below
  intro hd xs hhd hmem
  obtain ⟨k, hk, rfl, rfl⟩ := rings_eq_some hhd
  rcases List.mem_cons.1 hmem with e | hmem
  · simp only [descriptor, freeListAt, buddyMaxOrder] at *
    omega
  · exact hp k hk (mem_map_descriptor.1 hmem)

/-- Taking a page out of a list takes its descriptor out. -/
lemma map_erase_descriptor (l : List ℕ) (p : ℕ) :
    (l.erase p).map (descriptor s) = (l.map (descriptor s)).erase (descriptor s p) :=
  List.map_erase (fun _ _ => descriptor_inj) l

end Rings

/-! ## The updates -/

section Updates

variable {g : ℕ} {m m' : Mem} {s : Buddy} {k p : ℕ}

/-- The bytes of the fields of a descriptor. -/
lemma owns_page {x : ℕ} (hp : p < s.pageNum) (h1 : descriptor s p ≤ x) (h2 : x < descriptor s p + 32) :
    Owns g s x := by
  simp only [descriptor, sizeofPage] at *
  refine .inr ⟨by omega, ?_⟩
  simp only [sizeofPage]
  omega

/-- Writing the fields of one descriptor. -/
lemma Rep.setPage (h : Rep g m s) (hl : Layout g s) (hp : p < s.pageNum) {pg : Page}
    (hm : ∀ x, x < descriptor s p + 16 ∨ descriptor s p + 32 ≤ x → m' x = m x)
    (hpg : PageAt m' (descriptor s p) pg) : Refines g m s m' (s.setPage p pg) := by
  have hb := hl.below
  have hle : s.pageArrry ≤ descriptor s p := Nat.le_add_right _ _
  refine ⟨⟨?_, fun j hj => ?_, fun q hq => ?_, ?_⟩, ⟨rfl, rfl, rfl, rfl⟩, fun x hx => ?_⟩
  · have hw := h.words.congr fun x _ h2 => hm x (.inl (by omega))
    exact ⟨hw.startAddr, hw.size, hw.pageArrry, hw.pageNum⟩
  · refine (nrFree_congr fun x h1 h2 => hm x (.inl ?_)).trans (h.nrFree j hj)
    simp only [freeListAt, buddyMaxOrder] at *
    omega
  · rw [pages_setPage]
    split_ifs with e
    · rw [e]
      exact hpg
    · refine (h.page q hq).congr fun x h1 h2 => hm x ?_
      simp only [descriptor, sizeofPage] at *
      omega
  · refine rings_congr h.rings fun x hx => hm x ?_
    by_contra hc
    rw [not_or, not_lt, not_le] at hc
    exact not_isLink_page hl hc.1 hc.2 hx
  · refine hm x ?_
    by_contra hc
    exact hx (owns_page hp (by omega) (by omega))

/-- Writing an order in memory and in the model. -/
lemma Rep.setOrder (h : Rep g m s) (hl : Layout g s) (hp : p < s.pageNum) (hk : k < 2 ^ 32) :
    Refines g m s (setOrder m (descriptor s p) k) (s.writeOrder p k) := by
  have hpg := h.page p hp
  refine h.setPage hl hp (fun x hx => Mem.store_of_not_mem (by omega)) ⟨?_, ?_, ?_⟩
  · exact (Mem.load_store_of_disjoint (by omega)).trans hpg.allocated
  · exact Mem.load_store_of_lt hk
  · exact (Mem.load_store_of_disjoint (by omega)).trans hpg.slab

/-- Writing a flag in memory and in the model. -/
lemma Rep.setAllocated (h : Rep g m s) (hl : Layout g s) (hp : p < s.pageNum) {v : ℕ} (hv : v < 2 ^ 32) :
    Refines g m s (setAllocated m (descriptor s p) v) (s.writeAllocated p v) := by
  have hpg := h.page p hp
  refine h.setPage hl hp (fun x hx => Mem.store_of_not_mem (by omega)) ⟨?_, ?_, ?_⟩
  · exact Mem.load_store_of_lt hv
  · exact (Mem.load_store_of_disjoint (by omega)).trans hpg.order
  · exact (Mem.load_store_of_disjoint (by omega)).trans hpg.slab

/-- Replacing one of the free lists and its counter. -/
lemma Rep.setList (h : Rep g m s) (hl : Layout g s) (hk : k < buddyMaxOrder) {l : FreeList}
    (hm : ∀ x, ¬ IsLink g s x → (x < freeListAt g k + 16 ∨ freeListAt g k + 24 ≤ x) → m' x = m x)
    (hS : memLinks.Rings (nodes g s) m'
      (Function.update (MemRegion.rings g s) (freeListAt g k) (some (l.freeList.map (descriptor s)))))
    (hn : MemRegion.nrFree m' (freeListAt g k) = l.nrFree) :
    Refines g m s m' { s with freeLists := Function.update s.freeLists k l } := by
  have hb := hl.below
  refine ⟨⟨?_, fun j hj => ?_, fun q hq => ?_, ?_⟩, ⟨rfl, rfl, rfl, rfl⟩, fun x hx => ?_⟩
  · have hw := h.words.congr fun x _ h2 =>
      hm x (not_isLink_words hl (by omega)) (.inl (by rw [freeListAt]; omega))
    exact ⟨hw.startAddr, hw.size, hw.pageArrry, hw.pageNum⟩
  · by_cases e : j = k
    · subst e
      rw [hn]
      simp only [Function.update_self]
    · simp only [Function.update_of_ne e]
      refine (nrFree_congr fun x h1 h2 => hm x (not_isLink_nrFree hl hj h1 h2) ?_).trans (h.nrFree j hj)
      simp only [freeListAt] at *
      omega
  · refine (h.page q hq).congr fun x h1 h2 => hm x (not_isLink_page hl h1 h2) (.inr ?_)
    simp only [freeListAt, descriptor, buddyMaxOrder] at *
    omega
  · rw [rings_update hk]
    exact hS
  · refine hm x (fun hx' => hx hx'.owns) ?_
    by_contra hc
    refine hx (.inl ?_)
    simp only [freeListAt, buddyMaxOrder] at *
    omega

/-- `list_add` writes links only. -/
lemma listAdd_apart (hS : memLinks.Rings (nodes g s) m (rings g s)) (hl : Layout g s)
    (hk : k < buddyMaxOrder) (hp : p < s.pageNum) {x : ℕ} (hx : ¬ IsLink g s x) :
    listAdd memLinks m (descriptor s p) (freeListAt g k) x = m x := by
  have hr := hS.ring (rings_freeListAt (g := g) (s := s) hk)
  obtain ⟨b, C, -, hb, -, hmem, -, -⟩ := hr.cut (A := []) rfl
  have hnext : memLinks.next m (freeListAt g k) ∈ nodes g s := by
    rw [hb]
    exact hr.nodes b hmem
  have hapart : ∀ n ∈ nodes g s, x < n ∨ n + 16 ≤ x := by
    intro n hn
    by_contra hc
    exact hx ⟨n, hn, by omega, by omega⟩
  have hlow := hl.below
  refine insertAfter_of_not_mem ?_ (hapart _ (descriptor_mem hp)) (hapart _ (freeListAt_mem hk))
    (hapart _ hnext)
  simp only [freeListAt, descriptor, buddyMaxOrder] at *
  omega

/-- `list_del` writes links only. -/
lemma listDel_apart (hS : memLinks.Rings (nodes g s) m (rings g s)) (hl : Layout g s)
    (hk : k < buddyMaxOrder) (hp : p ∈ (s.freeLists k).freeList) {x : ℕ} (hx : ¬ IsLink g s x) :
    listDel memLinks m (descriptor s p) x = m x := by
  have hr := hS.ring (rings_freeListAt (g := g) (s := s) hk)
  obtain ⟨A, B, e⟩ := List.append_of_mem (mem_map_descriptor (s := s).2 hp)
  rw [e] at hr
  obtain ⟨hprev, hnext, hne⟩ := hr.neighbours
  have hapart : ∀ n ∈ nodes g s, x < n ∨ n + 16 ≤ x := by
    intro n hn
    by_contra hc
    exact hx ⟨n, hn, by omega, by omega⟩
  have hself : descriptor s p ∈ nodes g s := hr.nodes _ (by simp)
  exact remove_of_not_mem ((nodes_nodes hl).apart _ (hr.nodes _ hprev) _ hself hne)
    (hapart _ (hr.nodes _ hprev)) (hapart _ (hr.nodes _ hnext))

/-- Writing a counter keeps the links. -/
lemma setNrFree_links (hl : Layout g s) (hk : k < buddyMaxOrder) {n x : ℕ} (hx : IsLink g s x) :
    setNrFree m (freeListAt g k) n x = m x := by
  refine Mem.store_of_not_mem ?_
  by_contra hc
  exact not_isLink_nrFree hl hk (by omega) (by omega) hx

/-- Listing a chunk in front of a free list. -/
lemma Rep.addFree (h : Rep g m s) (hl : Layout g s) (hk : k < buddyMaxOrder) (hp : p < s.pageNum)
    (hun : Unlisted s p) (hn : (s.freeLists k).nrFree + 1 < 2 ^ 64) :
    Refines g m s (addFree m g k (descriptor s p)) (s.addFree k p) := by
  have hadd := (listAdd_refines (nodes_lawful hl) h.rings (rings_freeListAt hk) (hun.unlinked hl)
    (descriptor_mem hp)).1
  have hcount : MemRegion.nrFree (listAdd memLinks m (descriptor s p) (freeListAt g k)) (freeListAt g k) =
      (s.freeLists k).nrFree := by
    refine (nrFree_congr fun x h1 h2 => ?_).trans (h.nrFree k hk)
    exact listAdd_apart h.rings hl hk hp (not_isLink_nrFree hl hk h1 h2)
  refine h.setList hl hk (fun x h1 h2 => ?_) ?_ ?_
  · exact (Mem.store_of_not_mem (by omega)).trans (listAdd_apart h.rings hl hk hp h1)
  · exact rings_congr hadd fun x hx => setNrFree_links hl hk hx
  · rw [MemRegion.addFree, hcount]
    exact Mem.load_store_of_lt hn

/-- Taking a chunk out of its free list. -/
lemma Rep.delFree (h : Rep g m s) (hl : Layout g s) (hk : k < buddyMaxOrder)
    (hp : p ∈ (s.freeLists k).freeList) (hpos : 0 < (s.freeLists k).nrFree)
    (hn : (s.freeLists k).nrFree < 2 ^ 64) :
    Refines g m s (delFree m g k (descriptor s p)) (s.delFree k p) := by
  have hdel := (listDel_refines (nodes_lawful hl) h.rings (rings_freeListAt hk)
    (mem_map_descriptor.2 hp)).1
  have hcount : MemRegion.nrFree (listDel memLinks m (descriptor s p)) (freeListAt g k) =
      (s.freeLists k).nrFree := by
    refine (nrFree_congr fun x h1 h2 => ?_).trans (h.nrFree k hk)
    exact listDel_apart h.rings hl hk hp (not_isLink_nrFree hl hk h1 h2)
  refine h.setList hl hk (fun x h1 h2 => ?_) ?_ ?_
  · exact (Mem.store_of_not_mem (by omega)).trans (listDel_apart h.rings hl hk hp h1)
  · rw [map_erase_descriptor]
    exact rings_congr hdel fun x hx => setNrFree_links hl hk hx
  · rw [MemRegion.delFree, hcount, subWord_of_le hn hpos]
    exact Mem.load_store_of_lt (by omega)

/-- The order of `populate_page`: the counter is written before the links. -/
lemma Rep.countAdd (h : Rep g m s) (hl : Layout g s) (hk : k < buddyMaxOrder) (hp : p < s.pageNum)
    (hun : Unlisted s p) (hn : (s.freeLists k).nrFree + 1 < 2 ^ 64) :
    Refines g m s (listAdd memLinks
      (setNrFree m (freeListAt g k) (MemRegion.nrFree m (freeListAt g k) + 1)) (descriptor s p)
      (freeListAt g k)) (s.addFree k p) := by
  have hS : memLinks.Rings (nodes g s)
      (setNrFree m (freeListAt g k) (MemRegion.nrFree m (freeListAt g k) + 1)) (MemRegion.rings g s) :=
    rings_congr h.rings fun x hx => setNrFree_links hl hk hx
  have hadd := (listAdd_refines (nodes_lawful hl) hS (rings_freeListAt hk) (hun.unlinked hl)
    (descriptor_mem hp)).1
  refine h.setList hl hk (fun x h1 h2 => ?_) hadd ?_
  · exact (listAdd_apart hS hl hk hp h1).trans (Mem.store_of_not_mem (by omega))
  · rw [nrFree_congr fun x h1 h2 => listAdd_apart hS hl hk hp (not_isLink_nrFree hl hk h1 h2),
      h.nrFree k hk]
    exact Mem.load_store_of_lt hn

/-- The body of `populate_page`'s loops. -/
lemma Rep.populateChunk (h : Rep g m s) (hl : Layout g s) (hk : k < buddyMaxOrder) (hp : p < s.pageNum)
    (hun : Unlisted s p) (hn : (s.freeLists k).nrFree + 1 < 2 ^ 64) :
    Refines g m s (populateChunk m g k (descriptor s p)) (s.populateChunk k p) := by
  have hk' : k < 2 ^ 32 := by
    rw [buddyMaxOrder] at hk
    omega
  -- the fields of the descriptor come first
  have h1 : Refines g m s
      (setSlab (MemRegion.setAllocated (MemRegion.setOrder m (descriptor s p) k) (descriptor s p) 0)
        (descriptor s p) 0) (s.setPage p ⟨0, k, 0⟩) := by
    refine h.setPage hl hp (fun x hx => ?_) ⟨?_, ?_, ?_⟩
    · simp only [setSlab, MemRegion.setAllocated, MemRegion.setOrder]
      rw [Mem.store_of_not_mem (by omega), Mem.store_of_not_mem (by omega),
        Mem.store_of_not_mem (by omega)]
    · exact (Mem.load_store_of_disjoint (by omega)).trans (Mem.load_store_of_lt (by norm_num))
    · refine (Mem.load_store_of_disjoint (by omega)).trans ?_
      exact (Mem.load_store_of_disjoint (by omega)).trans (Mem.load_store_of_lt hk')
    · exact Mem.load_store_of_lt (by norm_num)
  exact h1.trans (h1.rep.countAdd (hl.congr h1.bounds) hk hp hun hn)

end Updates

end KingdoKernel.MemRegion
