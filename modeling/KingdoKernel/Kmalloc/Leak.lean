import KingdoKernel.Kmalloc.Release

/-!
# Whether all memory comes back

`memory_returned_iff`: when callers hold no memory any more, the buddy allocator has got all of it back
if and only if for no order the last block asked for was one that made the allocator take a new slab in
advance (`Kernel.refills`); that slab is then kept.

`chunk_kept_back` is a run that ends so: 63 blocks of 2048 bytes fill a slab, and the last of them
makes the allocator take another one.
-/

namespace KingdoKernel.Kmalloc
open Slab Buddy Tiles Kernel

variable {img : Image} {S S' : Sys} {h h' : Heap} {K : Kernel} {pages : Set Block} {k s n size : ℕ}

/-- With no memory in the hands of callers, all of it is free exactly when no slab is in reserve. -/
lemma Good.freeMem_iff (hg : Good img S h) (hno : ∀ a ∈ S.live, ¬ a.Valid) :
    S.kernel.buddy.getFreeMemSizeFromBuddy = 4096 * (initRegion img.imgEnd).pageNum ↔
      ∀ k, 6 ≤ k → k ≤ 11 → S.refilled k = false := by
  obtain ⟨pages, hi, hext⟩ := hg.held
  have hempty : ∀ e, e ∉ h.extents pages := by
    intro e he
    obtain ⟨a, ha, hv, -⟩ := mem_extents.1 ((hext e).2 he)
    exact hno a ha hv
  have hlive : h.pool.live = ∅ := Set.eq_empty_iff_forall_notMem.2 fun e he => hempty e (.inl he)
  have hpages : pages = ∅ := by
    refine Set.eq_empty_iff_forall_notMem.2 fun c hc => hempty _ (.inr ⟨c, hc, rfl⟩)
  have hiff := hi.buddy.freeMem_iff
  rw [hpages, Set.union_empty, hi.slabChunks_eq_empty_iff hlive, hg.bounds.2.2.2] at hiff
  rw [hg.rep.buddy, hiff]
  refine forall_congr' fun k => forall_congr' fun h6 => forall_congr' fun h11 => ?_
  rw [← hg.refilled k h6 h11, Bool.not_eq_true]

/-- When callers have given everything back, the buddy allocator has as much free memory as at the
start, if and only if for every order the last block asked for did not `refill`. -/
theorem memory_returned_iff (img : Image) (m : Mem) (ha : HasAlignedPage (initRegion img.imgEnd)) :
    ∃ K, boot img m = .ok K ∧ ∀ ops os S, machine.Run (.start K) ops os S →
      (∀ a ∈ S.live, ¬ a.Valid) →
      (S.kernel.buddy.getFreeMemSizeFromBuddy = K.buddy.getFreeMemSizeFromBuddy ↔
        ∀ k, 6 ≤ k → k ≤ 11 → S.refilled k = false) := by
  obtain ⟨K, h, e, hg, -⟩ := boot_good img m ha
  refine ⟨K, e, fun ops os S r hno => ?_⟩
  obtain ⟨h', -, hg'⟩ := hg.run r
  have hstart : K.buddy.getFreeMemSizeFromBuddy = 4096 * (initRegion img.imgEnd).pageNum :=
    hg.freeMem_iff (by rintro a ⟨⟩) |>.2 fun _ _ _ => rfl
  rw [hstart]
  exact hg'.freeMem_iff hno

/-- Two blocks are taken and given back: all the memory is there again. -/
theorem memory_returned_iff_five_mb : ∃ K p q os S, boot imageFiveMb (fun _ => 0) = .ok K ∧
    machine.Run (.start K) [.kmalloc 2048, .kmalloc 2048, .kfree q, .kfree p] (some p :: some q :: os) S ∧
    S.live = [] ∧ S.kernel.buddy.getFreeMemSizeFromBuddy = K.buddy.getFreeMemSizeFromBuddy := by
  obtain ⟨K, p, q, S₁, S₂, h, s, l, t⟩ := two_blocks
  obtain ⟨os, S, h', r, -, hnil, href⟩ := t.good.free_all (by
    rw [t.live]
    exact List.forall_mem_cons.2 ⟨rfl, List.forall_mem_singleton.2 rfl⟩)
  rw [t.live] at r
  have hrun := t.run.append r
  obtain ⟨K', e, hr⟩ := memory_returned_iff imageFiveMb (fun _ => 0) imageFiveMb_aligned
  obtain rfl : K' = K := Except.ok.inj (e.symm.trans t.boot)
  refine ⟨K', p, q, os, S, e, hrun, hnil, (hr _ _ _ hrun ?_).2 fun k _ _ => ?_⟩
  · rw [hnil]
    rintro a ⟨⟩
  · rw [href, t.refilled]

/-! ## A run that keeps a chunk -/

/-- The last free block of the slab makes the allocator take another one. -/
lemma Filling.refills (hf : Filling h k s 1) (hr : K.Rep h)
    (hi : Heap.Inv K.slabPoolG h pages) (h6 : 6 ≤ k) (h11 : k ≤ 11) : K.refills k = true := by
  obtain ⟨hc, ⟨l, hs, hlen⟩, hex⟩ := hf
  obtain ⟨b, rfl⟩ := List.length_eq_one_iff.1 hlen
  refine (refills_iff hr hi h6 h11).2 ⟨⟨s, b, ?_, hs⟩, ?_, hex⟩
  · rw [hc]
  · rw [hc]

/-- As many blocks as a slab has, and the allocator has a slab in reserve. -/
lemma fill_run (ha : HasAlignedPage (initRegion img.imgEnd)) (hsv : Heap.Serves size k)
    (hg : Good img (.start K) h) (hi : Heap.Inv img.slabPoolG h ∅) (hp : h.pool = Pool.empty) :
    ∃ os S' h', machine.Run (.start K) (List.replicate (2 ^ (17 - k) - 1) (.kmalloc size)) os S' ∧
      Good img S' h' ∧ S'.refilled k = true ∧ ∀ a ∈ S'.live, a.source = .kmalloc := by
  obtain ⟨h6, h11⟩ := hsv.2.2 ▸ sizeClass_le_eleven hsv.2.1
  have hge := two_pow_sub_ge h11
  obtain ⟨os, S₂, h₂, s, r, hg₂, hf₂, hsrc₂⟩ := filling_run ha hsv hg hi hp
  obtain ⟨o, S₃, h₃, e₃, -, hg₃, -⟩ := step_kmalloc hg₂ size
  obtain ⟨q, K₃, rfl, rfl⟩ := exec_kmalloc e₃
  have hrun := r.append (.cons (show machine.enabled S₂ (.kmalloc size) from trivial) e₃ .nil)
  have hsrc₃ : ∀ a ∈ (S₂.take K₃ ⟨q, size, .kmalloc⟩).live, a.source = .kmalloc :=
    List.forall_mem_cons.2 ⟨rfl, hsrc₂⟩
  refine ⟨os ++ [some q], S₂.take K₃ ⟨q, size, .kmalloc⟩, h₃, ?_, hg₃, ?_, hsrc₃⟩
  · rw [show 2 ^ (17 - k) - 1 = 2 ^ (17 - k) - 2 + 1 by omega, List.replicate_succ']
    exact hrun
  · obtain ⟨pages, hi₂, -⟩ := hg₂.held
    show (if Heap.Serves size k then _ else _) = true
    rw [if_pos hsv]
    exact hf₂.refills hg₂.rep hi₂ h6 h11

/-- 63 calls of `kmalloc(2048)`, everything freed, and a chunk of memory is missing. -/
theorem chunk_kept_back :
    ∃ K, ∃ ptrs : List ℕ, ∃ os S, boot imageFiveMb (fun _ => 0) = .ok K ∧
      machine.Run (.start K) (List.replicate 63 (.kmalloc 2048) ++ ptrs.map .kfree) os S ∧
      S.live = [] ∧
      S.kernel.buddy.getFreeMemSizeFromBuddy ≠ K.buddy.getFreeMemSizeFromBuddy := by
  obtain ⟨K, h, e, hg, hi, hp, -⟩ := boot_good imageFiveMb (fun _ => 0) imageFiveMb_aligned
  obtain ⟨os, S₁, h₁, r₁, hg₁, href, hsrc⟩ := fill_run imageFiveMb_aligned serves_two_kb hg hi hp
  obtain ⟨os', S₂, h₂, r₂, hg₂, hnil, href₂⟩ := hg₁.free_all hsrc
  have hstart : K.buddy.getFreeMemSizeFromBuddy = 4096 * (initRegion imageFiveMb.imgEnd).pageNum :=
    hg.freeMem_iff (by rintro a ⟨⟩) |>.2 fun _ _ _ => rfl
  refine ⟨K, S₁.live.map Alloc.ptr, os ++ os', S₂, e, ?_, hnil, fun heq => ?_⟩
  · rw [List.map_map]
    exact r₁.append r₂
  · rw [hstart] at heq
    have hfalse := (hg₂.freeMem_iff (by rw [hnil]; rintro a ⟨⟩)).1 heq 11 (by norm_num) (by norm_num)
    rw [href₂, href] at hfalse
    cases hfalse

end KingdoKernel.Kmalloc
