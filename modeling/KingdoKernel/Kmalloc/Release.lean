import KingdoKernel.Kmalloc.Safety

/-!
# When slabs are given back

`put_slab_to_buddy` gives the chunk of a slab back before `__slab_free` takes the slab out of its
container. `releases_detached_iff`: the slabs given back in a run are out of reach of the containers at
that time only if no slab is given back at all, that is if no call of the run takes back the last block
in use of a slab.
-/

namespace KingdoKernel.Kmalloc
open Slab Buddy Tiles Kernel

variable {img : Image} {S S' : Sys} {h h' : Heap}

/-- No call of the run takes back the last block in use of a slab. -/
def keeping : Machine Fault Sys Op (Option ℕ) := machine.restrict fun S op => ¬ S.Empties op

/-- The number of slabs given back grows in the calls that take back a last block. -/
lemma releases_step {op : Op} {o : Option ℕ} (hg : Good img S h) (hen : machine.enabled S op)
    (hex : machine.exec S op = .ok (o, S')) :
    S.kernel.releases.length ≤ S'.kernel.releases.length ∧
      (S'.kernel.releases.length = S.kernel.releases.length ↔ ¬ S.Empties op) := by
  obtain ⟨o', S'', h', e, -, -, heff⟩ := step hg hen
  rw [hex] at e
  cases e
  rcases heff.releases with ⟨hno, e⟩ | ⟨hemp, r, e⟩
  · rw [e]
    exact ⟨le_rfl, iff_of_true rfl hno⟩
  · rw [e, List.length_cons]
    exact ⟨Nat.le_succ _, iff_of_false (Nat.succ_ne_self _) (not_not.2 hemp)⟩

/-- At every call of `buddy_free_pages` by `put_slab_to_buddy` the slab is out of reach of the
containers, if and only if no call of the run takes back the last block in use of a slab. -/
theorem releases_detached_iff (img : Image) (m : Mem) (ha : HasAlignedPage (initRegion img.imgEnd)) :
    ∃ K, boot img m = .ok K ∧ ∀ ops os S, machine.Run (.start K) ops os S →
      ((∀ r ∈ S.kernel.releases, ¬ Attached r.mem S.kernel.slabPoolG r.slab) ↔
        keeping.Run (.start K) ops os S) := by
  obtain ⟨K, h, e, hg, -, -, hnil⟩ := boot_good img m ha
  refine ⟨K, e, fun ops os S r => ?_⟩
  obtain ⟨h', -, hg'⟩ := hg.run r
  have hsound : machine.Sound fun S => ∃ h, Good img S h := by
    rintro S op ⟨h, hg⟩ hen
    obtain ⟨o, S', h', e, -, hg', -⟩ := step hg hen
    exact ⟨o, S', e, h', hg'⟩
  obtain ⟨-, hiff⟩ := r.restrict_iff (P := fun S op => ¬ S.Empties op)
    (fun S => S.kernel.releases.length) hsound
    (fun S op o S' ⟨h, hg⟩ hen hex => releases_step hg hen hex) ⟨h, hg⟩
  have hstart : (Sys.start K).kernel.releases = [] := hnil
  rw [hstart, List.length_nil, List.length_eq_zero_iff] at hiff
  refine Iff.trans ⟨fun hno => ?_, fun e r hr => ?_⟩ hiff
  · -- every slab is attached when it is given back
    refine List.eq_nil_iff_forall_not_mem.2 fun r hr => hno r hr (hg'.releases r hr)
  · rw [e] at hr
    cases hr

/-- One of two blocks of a slab is given back, and no slab. -/
theorem releases_detached_iff_five_mb : ∃ K p q S, boot imageFiveMb (fun _ => 0) = .ok K ∧
    machine.Run (.start K) [.kmalloc 2048, .kmalloc 2048, .kfree q] [some p, some q, none] S ∧
    ∀ r ∈ S.kernel.releases, ¬ Attached r.mem S.kernel.slabPoolG r.slab := by
  obtain ⟨K, p, q, S₁, S₂, h, s, l, t⟩ := two_blocks
  have hmem : (⟨q, 2048, .kmalloc⟩ : Alloc) ∈ S₂.live := t.live ▸ List.mem_cons_self
  have hen : machine.enabled S₂ (.kfree q) := ⟨_, hmem, rfl, rfl⟩
  obtain ⟨o, S, h', ex, -⟩ := step_kfree t.good hen
  obtain ⟨K₃, rfl, rfl⟩ := exec_kfree ex
  -- 61 of the 63 blocks are free
  have hkeep : ¬ S₂.Empties (.kfree q) := by
    obtain ⟨pages, hi, hext⟩ := t.good.held
    rintro hemp
    obtain ⟨-, hlast⟩ := (t.good.empties_iff hi hext hmem t.valid (.inl rfl)).1 hemp
    have hlen := (hi.toCore.isLast_iff t.slab t.block.1 t.block.2).1 hlast
    rw [t.length] at hlen
    norm_num at hlen
  have hno (S : Sys) : ¬ S.Empties (.kmalloc 2048) :=
    not_empties (fun _ e => by cases e) fun _ e => by cases e
  have r : keeping.Run (.start K) [.kmalloc 2048, .kmalloc 2048, .kfree q] [some p, some q, none] _ :=
    .cons ⟨trivial, hno _⟩ t.first (.cons ⟨trivial, hno _⟩ t.second (.cons ⟨hen, hkeep⟩ ex .nil))
  obtain ⟨K', e, hiff⟩ := releases_detached_iff imageFiveMb (fun _ => 0) imageFiveMb_aligned
  obtain rfl : K' = K := Except.ok.inj (e.symm.trans t.boot)
  exact ⟨K', p, q, _, e, r.of_restrict, (hiff _ _ _ r.of_restrict).2 r⟩

/-- After `slab_alloc(64)` the block is alone in its slab, and `slab_free` gives the slab back while it
is the current one. -/
theorem slab_released_while_current :
    ∃ K p S, boot imageFiveMb (fun _ => 0) = .ok K ∧
      machine.Run (.start K) [.slabAlloc 64, .slabFree p] [some p, none] S ∧
      ¬ ∀ r ∈ S.kernel.releases, ¬ Attached r.mem S.kernel.slabPoolG r.slab := by
  obtain ⟨K, h, e, hg, hi, hpool, -⟩ := boot_good imageFiveMb (fun _ => 0) imageFiveMb_aligned
  have hex := boot_not_exhausted imageFiveMb_aligned hg hi hpool
  obtain ⟨o, S₁, h₁, e₁, e₁', hg₁, -⟩ := step_slabAlloc hg 64
  obtain ⟨p, K₁, rfl, rfl⟩ := exec_slabAlloc e₁
  -- the block exists
  have hv : (Alloc.mk p 64 .slab).Valid := by
    rcases Heap.slabAlloc_spec hi (show 0 < 64 by norm_num) (by norm_num) with ⟨-, h5⟩ | ⟨q, h', e, ht⟩
    · exact absurd h5 hex
    · simp only [heapMachine, e, ok_bind, pure_eq_ok, Except.ok.injEq, Prod.mk.injEq] at e₁'
      obtain ⟨e', rfl⟩ := e₁'
      cases e'
      refine valid_of_mem ht.inv.toCore ?_
      rw [ht.extents]
      exact Set.mem_insert _ _
  have hh : ((Sys.start K).take K₁ ⟨p, 64, .slab⟩).Holds p .slab := ⟨_, List.mem_cons_self, rfl, rfl⟩
  obtain ⟨o, S₂, h₂, e₂, -, hg₂, heff⟩ := step_slabFree hg₁ hh
  obtain rfl : o = none := by
    obtain ⟨⟨_, K₂⟩, -, e₂⟩ := bind_eq_ok.1 e₂
    cases e₂
    rfl
  refine ⟨K, p, S₂, e, .cons trivial e₁ (.cons hh e₂ .nil), fun hno => ?_⟩
  have hemp : ((Sys.start K).take K₁ ⟨p, 64, .slab⟩).Empties (.slabFree p) := by
    refine ⟨⟨p, 64, .slab⟩, List.mem_cons_self, .inr rfl, hv, by norm_num, fun c hc _ _ => ?_⟩
    exact List.mem_singleton.1 hc
  rcases heff.releases with ⟨hn, -⟩ | ⟨-, r, e⟩
  · exact hn hemp
  · have hr : r ∈ S₂.kernel.releases := e ▸ List.mem_cons_self
    exact hno r hr (hg₂.releases r hr)

end KingdoKernel.Kmalloc
