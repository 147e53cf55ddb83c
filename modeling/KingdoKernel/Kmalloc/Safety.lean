import KingdoKernel.Kmalloc.Fill

/-!
# What callers can rely on

* `extents_separate`: in every reached state the memory behind every pointer has the size class asked
  for, is aligned to its size, lies in the managed region and overlaps neither other such memory nor the
  header of a slab; and every call returns.
* `calls_frame`: a call does not change the memory that callers hold before and after it, and the
  addresses that calls return do not depend on what callers have written.
-/

namespace KingdoKernel.Kmalloc
open Slab Buddy Tiles Kernel

variable {img : Image} {S S' : Sys} {h h' : Heap} {pages : Set Block}

/-! ## Extents -/

/-- The size classes: 64, 128, ..., 2048 bytes, and 4096, 8192, ..., 4096 * 2 ^ 10. -/
def IsSizeClass (c : ℕ) : Prop := ∃ k, 6 ≤ k ∧ k ≤ 22 ∧ c = 2 ^ k

/-- What is known about the memory behind the pointers of callers. -/
structure Separate (img : Image) (S : Sys) : Prop where
  /-- the memory has the smallest size class that fits the request -/
  smallest : ∀ a ∈ S.live, a.Valid → IsLeast {c | IsSizeClass c ∧ a.size ≤ c} a.cap
  /-- `get_pages` hands out as much as it is asked for -/
  exact_pages : ∀ a ∈ S.live, a.Valid → a.source = .pages → a.cap = a.size
  /-- `__kmalloc` reports the size in `real_size` -/
  reported : ∀ a ∈ S.live, a.Valid → a.source = .kmalloc → ∀ (K : Kernel) p r K',
    K.__kmalloc a.size = .ok (p, r, K') → r = some a.cap
  /-- the pointer is a multiple of the size -/
  aligned : ∀ a ∈ S.live, a.Valid → a.cap ∣ a.ptr
  /-- the memory lies in the managed region -/
  inside : ∀ a ∈ S.live, a.Valid → (initRegion img.imgEnd).startAddr ≤ a.ptr ∧
    a.ptr + a.cap ≤ (initRegion img.imgEnd).startAddr + (initRegion img.imgEnd).size
  /-- no two pointers share memory -/
  disjoint : S.live.Pairwise fun a c => a.Valid → c.Valid →
    a.ptr + a.cap ≤ c.ptr ∨ c.ptr + c.cap ≤ a.ptr
  /-- the first block of a slab is not behind a pointer -/
  headers : ∀ a ∈ S.live, a.Valid → ∀ p < S.kernel.buddy.pageNum, ∀ s,
    (S.kernel.buddy.pages p).slab = s → s ≠ 0 →
    a.ptr + a.cap ≤ s ∨ s + slabOrderToSize (S.kernel.mem.load s 4) ≤ a.ptr

/-- Every size that is served is reported in `real_size`. -/
lemma kmalloc_real_size {K K' : Kernel} {size p : ℕ} {r : Option ℕ} (h0 : 0 < size)
    (h1 : size ≤ 2 ^ 22) (e : K.__kmalloc size = .ok (p, r, K')) : r = some (2 ^ sizeClass size) := by
  unfold __kmalloc at e
  rw [slabOrderToSize_max, buddyChunkSize_max, if_pos h1] at e
  split_ifs at e with h2
  · obtain ⟨⟨q, K1⟩, -, e⟩ := bind_eq_ok.1 e
    cases e
    rw [sizeToSlabOrder_eq h0 h2]
    rfl
  · obtain ⟨⟨q, K1⟩, -, e⟩ := bind_eq_ok.1 e
    cases e
    have h12 := (sizeClass_ge_twelve (not_le.1 h2) h1).1
    rw [sizeToPageOrder_eq (not_le.1 h2) h1, Option.map_some]
    congr 1
    show 2 ^ (12 + (sizeClass size - 12)) = 2 ^ sizeClass size
    rw [Nat.add_sub_cancel' h12]

/-- The memory behind a pointer is an extent of the heap. -/
lemma Good.extent_mem (hext : ∀ e, e ∈ S.extents ↔ e ∈ h.extents pages) {a : Alloc}
    (ha : a ∈ S.live) (hv : a.Valid) : a.extent ∈ h.extents pages :=
  (hext _).1 (mem_extents.2 ⟨a, ha, hv, rfl⟩)

/-- A valid pointer has a size that is served. -/
lemma Good.sized (hg : Good img S h) {a : Alloc} (ha : a ∈ S.live) (hv : a.Valid) : a.Sized :=
  ((hg.known a ha).resolve_right fun hm => hm.not_valid hv).2

/-- In a reached state the memory of callers is apart. -/
lemma Good.separate (hg : Good img S h) : Separate img S := by
  obtain ⟨pages, hi, hext⟩ := hg.held
  have hmem : ∀ {a}, a ∈ S.live → a.Valid → a.extent ∈ h.extents pages :=
    fun ha hv => Good.extent_mem hext ha hv
  refine ⟨?_, ?_, ?_, ?_, ?_, ?_, ?_⟩
  · exact fun a ha hv => sizeClass_isLeast (hg.sized ha hv).2.1
  · exact fun a ha hv hsrc => ((hg.sized ha hv).2.2.2 hsrc).2
  · intro a ha hv _ K p r K' e
    have hs := hg.sized ha hv
    exact kmalloc_real_size hs.1 hs.2.1 e
  · exact fun a ha hv => (hi.toCore.extents_place (hmem ha hv)).2.2
  · intro a ha hv
    obtain ⟨h1, h2, -⟩ := hi.toCore.extents_place (hmem ha hv)
    rw [hg.bounds.1] at h1 h2
    rw [hg.bounds.2.1] at h2
    exact ⟨h1, h2⟩
  · have hp := List.pairwise_filter.1 (List.pairwise_map.1 hg.distinct)
    refine hp.imp_of_mem fun ha hc hne hva hvc => ?_
    have hne' := hne (decide_eq_true hva) (decide_eq_true hvc)
    exact Block.apart_of_disjoint fun x hx =>
      hi.toCore.extents_disjoint (hmem ha hva) (hmem hc hvc) hne' hx
  · intro a ha hv p hp s hs h0
    rw [hg.rep.buddy] at hp hs
    obtain ⟨σ, hσ, -⟩ := hi.toCore.slab_of_descriptor hp hs h0
    rw [(hg.rep.pool.header s σ hσ).order]
    refine Block.apart_of_disjoint (b := a.extent) (c := ⟨s, σ.order⟩) fun x hx hx' => ?_
    exact hi.toCore.extents_not_owns (hmem ha hv) hx (Pool.owns_header hσ rfl hx'.1 hx'.2)

/-- Runs of the allocators keep the memory of callers apart and never fault. -/
theorem extents_separate (img : Image) (m : Mem) (ha : HasAlignedPage (initRegion img.imgEnd)) :
    ∃ K, boot img m = .ok K ∧ ∀ ops os S, machine.Run (.start K) ops os S →
      Separate img S ∧ ∀ op, machine.enabled S op → ∃ o S', machine.exec S op = .ok (o, S') := by
  obtain ⟨K, h, e, hg, -⟩ := boot_good img m ha
  refine ⟨K, e, fun ops os S r => ?_⟩
  obtain ⟨h', -, hg'⟩ := hg.run r
  refine ⟨hg'.separate, fun op hen => ?_⟩
  obtain ⟨o, S', h'', e', -⟩ := step hg' hen
  exact ⟨o, S', e'⟩

/-- Two blocks in the hands of callers. -/
theorem extents_separate_five_mb : ∃ K p q S, boot imageFiveMb (fun _ => 0) = .ok K ∧
    machine.Run (.start K) [.kmalloc 2048, .kmalloc 2048] [some p, some q] S ∧
    Separate imageFiveMb S ∧ 2048 ∣ p ∧ 2048 ∣ q ∧ (p + 2048 ≤ q ∨ q + 2048 ≤ p) := by
  obtain ⟨K, p, q, S₁, S, h, s, l, t⟩ := two_blocks
  obtain ⟨K', e, hr⟩ := extents_separate imageFiveMb (fun _ => 0) imageFiveMb_aligned
  obtain rfl : K' = K := Except.ok.inj (e.symm.trans t.boot)
  obtain ⟨hsep, -⟩ := hr _ _ _ t.run
  have hcap : ∀ x, (Alloc.mk x 2048 .kmalloc).cap = 2048 := fun x => by
    rw [Alloc.cap, serves_two_kb.2.2]
    rfl
  have hal := hsep.aligned
  have hdis := hsep.disjoint
  rw [t.live] at hal hdis
  have hq := hal _ List.mem_cons_self t.valid
  have hp := hal _ (List.mem_cons_of_mem _ List.mem_cons_self) t.valid₁
  have hapart := (List.pairwise_cons.1 hdis).1 _ List.mem_cons_self t.valid t.valid₁
  rw [hcap] at hp hq
  rw [hcap, hcap] at hapart
  exact ⟨K', p, q, S, e, t.run, hsep, hp, hq, hapart.symm⟩

/-! ## Calls and the memory of callers -/

/-- The calls among the operations of a run. -/
def calls (ops : List Op) : List Op := ops.filter fun op => !op.isWrite

/-- On heaps the writes of callers can be left out of a run. -/
lemma heap_run_calls {ops : List Op} {os : List (Option ℕ)} (r : heapMachine.Run h ops os h') :
    ∃ os', heapMachine.Run h (calls ops) os' h' ∧ os'.reduceOption = os.reduceOption := by
  induction r with
  | nil => exact ⟨[], .nil, rfl⟩
  | @cons h h1 h2 op o ops os hen hex r ih =>
    obtain ⟨os', r', e⟩ := ih
    cases hw : op.isWrite with
    | false =>
      refine ⟨o :: os', ?_, ?_⟩
      · rw [calls, List.filter_cons, hw]
        exact .cons hen hex r'
      · cases o with
        | none => simpa using e
        | some p => simpa using e
    | true =>
      cases op with
      | write x v =>
        cases hex
        refine ⟨os', ?_, ?_⟩
        · rw [calls, List.filter_cons, hw]
          exact r'
        · simpa using e
      | _ => cases hw

/-- Calls leave alone the memory that callers hold before and after, and return the same addresses
whatever callers write. -/
theorem calls_frame (img : Image) (m : Mem) (ha : HasAlignedPage (initRegion img.imgEnd)) :
    ∃ K, boot img m = .ok K ∧
      (∀ ops os S, machine.Run (.start K) ops os S → ∀ op o S', op.isWrite = false →
        machine.enabled S op → machine.exec S op = .ok (o, S') →
        ∀ a ∈ S.live, a ∈ S'.live → a.Valid →
          ∀ x, a.ptr ≤ x → x < a.ptr + a.cap → S'.kernel.mem x = S.kernel.mem x) ∧
      (∀ ops₁ os₁ S₁ ops₂ os₂ S₂, machine.Run (.start K) ops₁ os₁ S₁ →
        machine.Run (.start K) ops₂ os₂ S₂ → calls ops₁ = calls ops₂ →
        os₁.reduceOption = os₂.reduceOption) := by
  obtain ⟨K, h, e, hg, -⟩ := boot_good img m ha
  refine ⟨K, e, ?_, ?_⟩
  · intro ops os S r op o S' hw hen hex a haS haS' hv x h1 h2
    obtain ⟨h', -, hg'⟩ := hg.run r
    obtain ⟨o', S'', h'', e', -, -, heff⟩ := step hg' hen
    rw [hex] at e'
    cases e'
    exact heff.keeps hw a haS haS' hv x ⟨h1, h2⟩
  · intro ops₁ os₁ S₁ ops₂ os₂ S₂ r₁ r₂ hc
    obtain ⟨h₁, r₁', -⟩ := hg.run r₁
    obtain ⟨h₂, r₂', -⟩ := hg.run r₂
    obtain ⟨os₁', r₁'', e₁⟩ := heap_run_calls r₁'
    obtain ⟨os₂', r₂'', e₂⟩ := heap_run_calls r₂'
    rw [hc] at r₁''
    rw [← e₁, ← e₂, (r₁''.det r₂'').1]

/-- A caller writes to its block between two calls: the second one returns the same block as without the
write, and the block keeps what was written. -/
theorem calls_frame_five_mb : ∃ K p q S, boot imageFiveMb (fun _ => 0) = .ok K ∧
    (∃ S', machine.Run (.start K) [.kmalloc 2048, .kmalloc 2048] [some p, some q] S') ∧
    machine.Run (.start K) [.kmalloc 2048, .write p 7, .kmalloc 2048] [some p, none, some q] S ∧
    S.kernel.mem p = 7 := by
  obtain ⟨K, p, q, S₁, S', h, s, l, t⟩ := two_blocks
  obtain ⟨h₁, hg₁⟩ := t.good₁
  have hmem : (⟨p, 2048, .kmalloc⟩ : Alloc) ∈ S₁.live := t.live₁ ▸ List.mem_cons_self
  have hcap : 0 < (Alloc.mk p 2048 .kmalloc).cap := Nat.two_pow_pos _
  have hen : machine.enabled S₁ (.write p 7) := ⟨_, hmem, t.valid₁, le_rfl, Nat.lt_add_of_pos_right hcap⟩
  obtain ⟨o, S₂, h₂, ex₂, -, hg₂, -⟩ := step_write hg₁ hen
  cases ex₂
  obtain ⟨o, S, h₃, ex₃, -⟩ := step_kmalloc hg₂ 2048
  obtain ⟨q', K₃, rfl, rfl⟩ := exec_kmalloc ex₃
  have r : machine.Run (.start K) [.kmalloc 2048, .write p 7] [some p, none] _ :=
    .cons trivial t.first (.cons hen rfl .nil)
  have r' := r.append (.cons (show machine.enabled _ (.kmalloc 2048) from trivial) ex₃ .nil)
  obtain ⟨K', e, hkeep, hdet⟩ := calls_frame imageFiveMb (fun _ => 0) imageFiveMb_aligned
  obtain rfl : K' = K := Except.ok.inj (e.symm.trans t.boot)
  have hq := hdet _ _ _ _ _ _ r' t.run rfl
  obtain rfl : q' = q := by
    simpa [List.reduceOption] using hq
  refine ⟨K', p, q', _, e, ⟨S', t.run⟩, r', ?_⟩
  rw [hkeep _ _ _ r (.kmalloc 2048) _ _ rfl trivial ex₃ _ hmem (List.mem_cons_of_mem _ hmem) t.valid₁ p
    le_rfl (Nat.lt_add_of_pos_right hcap)]
  exact Function.update_self ..

end KingdoKernel.Kmalloc
