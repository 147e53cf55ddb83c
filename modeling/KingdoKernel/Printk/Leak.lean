import KingdoKernel.Printk.Format
import KingdoKernel.Printk.Output

/-!
# What a conversion depends on

Every conversion of a call stores its argument to a member of the same union. `emitted_render`: the text
of a conversion is determined by its specification, its argument, and what the union holds of the
conversions before. `independent_iff`: it is independent of the latter except for the unsigned
conversions of short types, which read more of the union than they have stored.
-/

namespace KingdoKernel.Printk

variable {a : Call} {p : Printer} {f : List Char} {u v v' : Word}

/-- Words that agree modulo `2 ^ n` have the same low bits. -/
lemma setWidth_eq_of_mod {n k : ℕ} (hk : k ≤ n) (h : v.toNat % 2 ^ n = v'.toNat % 2 ^ n) :
    v.setWidth k = v'.setWidth k := by
  apply BitVec.eq_of_toNat_eq
  rw [BitVec.toNat_setWidth, BitVec.toNat_setWidth, ← Nat.mod_mod_of_dvd v.toNat (pow_dvd_pow 2 hk), h,
    Nat.mod_mod_of_dvd v'.toNat (pow_dvd_pow 2 hk)]

/-- No argument is stored to a member wider than its length modifier says. -/
lemma Conv.bits_write_le (k : Conv) : k.write.bits ≤ k.bits := by
  cases k with
  | int m t => cases m <;> cases t <;> decide
  | b => decide
  | p => decide
  | c => decide
  | s => decide

/-! ## The text of a conversion -/

/-- The text that the iteration of the loop at `p` prints. -/
def emitted (a : Call) (p : Printer) : Except Fault (List Char) := do
  let q ← body a p
  .ok (q.out.text.drop p.out.text.length)

/-- The text of a conversion. -/
lemma emitted_render (s : Spec) (hp : p.format = s.render ++ f) :
    emitted a p = (do
      let u' := store p.u s.conv.write (a.args (p.ap + s.width.slots))
      let o ← s.conv.out a (s.width.value a p.ap) s.flags (load u' s.conv.read)
      .ok o.text) := by
  obtain ⟨format, out, ap, u⟩ := p
  subst hp
  rw [emitted, body_render]
  simp only [bind_assoc, ok_bind]
  refine bind_congr fun o => ?_
  rw [Out.append, List.drop_left]

/-- What a specification is given: the width of a `*`, the value of its argument at the width of its
length modifier, and for `%s` the string that the argument points to. -/
structure Operands where
  width : Option (BitVec 32)
  value : ℕ
  string : Option (List Char)
deriving DecidableEq, Repr

/-- The operands of a specification, where `ap` is the next argument. -/
def Spec.operands (s : Spec) (a : Call) (ap : ℕ) : Operands where
  width := s.width.operand a ap
  value := (a.args (ap + s.width.slots)).toNat % 2 ^ s.conv.bits
  string := s.conv.pointee a (a.args (ap + s.width.slots))

/-- Whenever calls reach a conversion with the same operands, they print the same text for it. -/
def Spec.Independent (s : Spec) : Prop :=
  ∀ (a a' : Call) (p p' : Printer) (f f' : List Char), Complete a.format → Complete a'.format →
    Reaches a p → Reaches a' p' → p.format = s.render ++ f → p'.format = s.render ++ f' →
    s.operands a p.ap = s.operands a' p'.ap → emitted a p = emitted a' p'

/-- The value of the width is one of the operands. -/
lemma Spec.width_value_congr {s : Spec} {a a' : Call} {ap ap' : ℕ}
    (h : s.operands a ap = s.operands a' ap') : s.width.value a ap = s.width.value a' ap' := by
  have hw := congrArg Operands.width h
  obtain ⟨minus, zeros, width, conv⟩ := s
  cases width with
  | star => exact congrArg BitVec.toInt (Option.some.inj hw)
  | digits ds hds => rfl

/-- The member stored is determined by the operands. -/
lemma Spec.load_write_congr {s : Spec} {a a' : Call} {ap ap' : ℕ}
    (h : s.operands a ap = s.operands a' ap') :
    load (a.args (ap + s.width.slots)) s.conv.write =
      load (a'.args (ap' + s.width.slots)) s.conv.write :=
  load_congr (setWidth_eq_of_mod s.conv.bits_write_le (congrArg Operands.value h))

/-- What is printed of the member stored is determined by the operands. -/
lemma Spec.out_congr {s : Spec} {a a' : Call} {ap ap' : ℕ} {width : ℤ} {fl : Flags}
    (h : s.operands a ap = s.operands a' ap') :
    s.conv.out a width fl (load (a.args (ap + s.width.slots)) s.conv.write) =
      s.conv.out a' width fl (load (a'.args (ap' + s.width.slots)) s.conv.write) := by
  have hload := s.load_write_congr h
  obtain ⟨minus, zeros, w, conv⟩ := s
  cases conv with
  | int m t => cases t <;> exact congrArg (fun x => simpleOutputi x _ _ width fl _) hload
  | b => exact congrArg (fun x => simpleOutputi x 2 true width fl 'a') hload
  | p => exact congrArg (fun x => simpleOutputi x 16 false width fl 'a') hload
  | c => exact congrArg (fun x => Except.ok (prints (scr x) width fl)) hload
  | s =>
    have hstr : a.str (a.args (ap + w.slots)) = a'.str (a'.args (ap' + w.slots)) :=
      Option.some.inj (congrArg Operands.string h)
    have hid (v : Word) : load v .s = v := BitVec.setWidth_eq v
    simp only [Conv.out, Conv.write, hid, Call.string] at hload ⊢
    rw [hstr, hload]

/-- A conversion that reads the member it has stored is independent of what was printed before. -/
lemma Spec.independent_of_read {s : Spec} (hs : ¬s.conv.ShortUnsigned) : s.Independent := by
  intro a a' p p' f f' _ _ _ _ hp hp' h
  have hread : s.conv.read = s.conv.write := if_neg hs
  rw [emitted_render s hp, emitted_render s hp']
  simp only [hread, load_store_self]
  rw [s.width_value_congr h, s.out_congr h]

/-! ## The leak -/

/-- A word that stores to short members leave as it is, with numerals that contain a `1`. -/
def leftover : Word := 0x100000

/-- The specification `%lu`. -/
def luSpec : Spec := ⟨false, 0, .absent, .int .l .u⟩

/-- A call that prints `v` with `%lu`, and then a zero by the specification `s`. -/
def leakCall (s : Spec) (v : Word) : Call where
  format := luSpec.render ++ s.render
  args n := if n = 0 then v else 0
  str _ := []
  u := 0

/-- The format of the call is complete. -/
lemma leakCall_complete (s : Spec) (v : Word) : Complete (leakCall s v).format :=
  ⟨[.spec luSpec, .spec s], by
    rw [List.flatMap_cons, List.flatMap_cons, List.flatMap_nil, List.append_nil]; rfl⟩

/-- The arguments after the one of `%lu` are zero. -/
lemma leakCall_args (s : Spec) (v : Word) (n : ℕ) : (leakCall s v).args (1 + n) = 0 :=
  if_neg (by omega)

/-- The two calls have the same operands for the specification. -/
lemma leakCall_operands (s : Spec) (v v' : Word) :
    s.operands (leakCall s v) 1 = s.operands (leakCall s v') 1 := by
  simp only [Spec.operands, leakCall_args]
  rfl

/-- After `%lu` the union holds its argument. -/
lemma leakCall_reaches (s : Spec) {v : Word} {o : Out}
    (h : simpleOutputi v 10 false 0 ⟨false, false⟩ 'a' = .ok o) :
    Reaches (leakCall s v) ⟨s.render, Out.empty.append o, 1, v⟩ := by
  have hstore : store 0 .lu v = v := by simp [store, Member.bits]
  have hload : load v .lu = v := BitVec.setWidth_eq v
  have hout : luSpec.conv.out (leakCall s v) 0 luSpec.flags (load (store 0 .lu v) .lu) = .ok o := by
    rw [hstore, hload]
    exact h
  refine .step .start (by decide : '%' ≠ '\x00') ?_
  show body (leakCall s v) ⟨luSpec.render ++ s.render, .empty, 0, 0⟩ = _
  rw [body_render]
  refine bind_eq_ok.2 ⟨o, hout, ?_⟩
  exact congrArg (fun u => Except.ok (Printer.mk s.render (Out.empty.append o) 1 u)) hstore

/-- The unsigned conversions of short types print what is left over in the union. -/
lemma Conv.load_read_leftover {k : Conv} (hk : k.ShortUnsigned) :
    load (store leftover k.write 0) k.read = leftover ∧ load (store 0 k.write 0) k.read = 0 := by
  have hread : k.read = .lli := if_pos hk
  have hwrite : k.write = .hu ∨ k.write = .hhu := by
    cases k with
    | int m t =>
      obtain ⟨rfl | rfl, ht⟩ := hk
      · cases t with
        | d => exact absurd rfl ht
        | u | x | X => exact .inl rfl
      · cases t with
        | d => exact absurd rfl ht
        | u | x | X => exact .inr rfl
    | b | p | c | s => exact hk.elim
  rw [hread]
  rcases hwrite with e | e
  · rw [e]
    decide
  · rw [e]
    decide

/-- The numerals of a leftover contain a `1`. -/
lemma one_mem_out_leftover {k : Conv} (hk : k.ShortUnsigned) (a : Call) (width : ℤ) (fl : Flags) :
    ∃ o, k.out a width fl leftover = .ok o ∧ '1' ∈ o.text := by
  have hout (base : ℕ) (letbase : Char) (s : ℕ × List Char) (hs : '1' ∈ s.2)
      (h : digitLoop base letbase (printBufLen - 1) leftover.toNat [] = .ok s) :
      ∃ o, simpleOutputi leftover base false width fl letbase = .ok o ∧ '1' ∈ o.text := by
    refine ⟨prints s.2 width fl, ?_, mem_prints_text.2 (.inl hs)⟩
    rw [simpleOutputi_unsigned (by decide), h, ok_bind]
  cases k with
  | int m t =>
    cases t with
    | d => exact absurd rfl hk.2
    | u => exact hout 10 'a' (56, "1048576".toList) (by decide) rfl
    | x => exact hout 16 'a' (57, "100000".toList) (by decide) rfl
    | X => exact hout 16 'A' (57, "100000".toList) (by decide) rfl
  | b | p | c | s => exact hk.elim

/-- A zero is printed without a `1`. -/
lemma one_not_mem_out_zero {k : Conv} (hk : k.ShortUnsigned) (a : Call) (width : ℤ) (fl : Flags) :
    ∃ o, k.out a width fl 0 = .ok o ∧ '1' ∉ o.text := by
  refine ⟨prints ['0'] width fl, ?_, fun h => ?_⟩
  · cases k with
    | int m t => cases t <;> rfl
    | b | p | c | s => exact hk.elim
  · rcases mem_prints_text.1 h with h | h
    · exact absurd h (by decide)
    · rcases mem_padding h with h | h <;> exact absurd h (by decide)

/-- The unsigned conversions of short types print different texts for a zero after different
arguments of the conversion before. -/
lemma Spec.not_independent {s : Spec} (hs : s.conv.ShortUnsigned) : ¬s.Independent := by
  intro h
  obtain ⟨o, ho⟩ : ∃ o, simpleOutputi leftover 10 false 0 ⟨false, false⟩ 'a' = .ok o := ⟨_, rfl⟩
  have hreach := leakCall_reaches s ho
  have hreach' := leakCall_reaches s (v := 0) (o := prints ['0'] 0 ⟨false, false⟩) rfl
  have e := h _ _ _ _ [] [] (leakCall_complete s leftover) (leakCall_complete s 0) hreach hreach'
    (List.append_nil _).symm (List.append_nil _).symm (leakCall_operands s _ _)
  obtain ⟨hload, hload'⟩ := Conv.load_read_leftover hs
  obtain ⟨o₁, ho₁, hmem⟩ :=
    one_mem_out_leftover hs (leakCall s leftover) (s.width.value (leakCall s leftover) 1) s.flags
  obtain ⟨o₂, ho₂, hmem'⟩ :=
    one_not_mem_out_zero hs (leakCall s 0) (s.width.value (leakCall s 0) 1) s.flags
  rw [emitted_render s (List.append_nil _).symm, emitted_render s (List.append_nil _).symm] at e
  simp only [leakCall_args, hload, hload', ho₁, ho₂, ok_bind] at e
  exact hmem' (Except.ok.inj e ▸ hmem)

/-- The text of a conversion is independent of what the call has printed before, unless the conversion
is an unsigned one of a short type. -/
theorem independent_iff (s : Spec) : s.Independent ↔ ¬s.conv.ShortUnsigned :=
  ⟨fun h hs => s.not_independent hs h, s.independent_of_read⟩

/-- `%hu` of `5` after `%lu`: the text is `5` or `65541`, by the argument of `%lu`. -/
theorem hu_after_lu :
    let huSpec : Spec := ⟨false, 0, .absent, .int .h .u⟩
    let call (v : Word) : Call := ⟨"%lu%hu".toList, fun n => if n = 0 then v else 5, fun _ => [], 0⟩
    (simpleVsprintf (call 0)).map Out.text = .ok "05".toList ∧
      (simpleVsprintf (call 65536)).map Out.text = .ok "6553665541".toList ∧ ¬huSpec.Independent :=
  ⟨by decide +kernel, by decide +kernel, Spec.not_independent ⟨.inl rfl, nofun⟩⟩

end KingdoKernel.Printk
