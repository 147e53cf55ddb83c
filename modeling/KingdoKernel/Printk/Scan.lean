import KingdoKernel.Printk.Basic

/-!
# The end of a format

The scanner of `simple_vsprintf` reads a specification up to its conversion character, and the loop then
steps over that character. Where the format ends inside a specification the character is the NUL, and
the loop steps over it. `Place` says where in a format a character stands, from the characters before
alone; `inside_iff`: the format is left behind only if it is `Truncated`.
-/

namespace KingdoKernel.Printk

/-- What the characters read so far are the beginning of: text, a specification that is only its `%`, or
a specification up to its flags, the digits of its width, its `*`, or its length modifier. -/
inductive Place where
  | text | percent | flags | digits | star | l | h | doubled
deriving DecidableEq, Repr

namespace Place

/-- After the width. -/
def modifier (c : Char) : Place := if c = 'l' then .l else if c = 'h' then .h else .text

/-- In the digits of the width. -/
def inDigits (c : Char) : Place := if '0' ≤ c ∧ c ≤ '9' then .digits else modifier c

/-- After the flags. -/
def afterFlags (c : Char) : Place :=
  if c = '0' then .flags else if c = '*' then .star else inDigits c

/-- One more character. -/
def step : Place → Char → Place
  | .text, c => if c = '%' then .percent else .text
  | .percent, c => if c = '-' then .flags else afterFlags c
  | .flags, c => afterFlags c
  | .digits, c => inDigits c
  | .star, c => modifier c
  | .l, c => if c = 'l' then .doubled else .text
  | .h, c => if c = 'h' then .doubled else .text
  | .doubled, _ => .text

/-- The place after `f`. -/
def run (s : Place) (f : List Char) : Place := f.foldl step s

/-- The inside of a specification, after more than its `%`. -/
def Pending (s : Place) : Prop := s ≠ .text ∧ s ≠ .percent

instance : DecidablePred Pending := fun s => inferInstanceAs (Decidable (s ≠ .text ∧ s ≠ .percent))

end Place

/-- The format ends inside a specification. -/
def Truncated (f : List Char) : Prop := (Place.run .text f).Pending

instance : DecidablePred Truncated := fun f => inferInstanceAs (Decidable (Place.run .text f).Pending)

/-- `++format` after the `%`. -/
def afterPercent (p : Printer) : Printer := { p with format := p.format.tail }

/-- `*format` is the `%` of a conversion. -/
def AtConversion (p : Printer) : Prop :=
  peek p.format = '%' ∧ peek p.format.tail ≠ '\x00' ∧ peek p.format.tail ≠ '%'

/-- The conversion at `p` stops at the NUL, which `++format` then steps over. -/
def Overruns (a : Call) (p : Printer) : Prop :=
  AtConversion p ∧ ∃ q, conversion a (afterPercent p) = .ok q ∧ peek q.format = '\x00'

/-- The conversion at `p` stores to memory outside `print_buf`. -/
def LeavesBuffer (a : Call) (p : Printer) : Prop :=
  AtConversion p ∧ ∃ e, conversion a (afterPercent p) = .error e

/-- No iteration of the call steps over the NUL, and the loop ends there, unless a conversion has
stored to memory outside `print_buf`. -/
def Inside (a : Call) : Prop :=
  (∀ p, Reaches a p → ¬Overruns a p) ∧
    ((∃ q, vsprintfLoop a (start a) = .ok q ∧ q.format = []) ∨ ∃ p, Reaches a p ∧ LeavesBuffer a p)

variable {a : Call} {p q : Printer} {f g : List Char} {s : Place}

/-! ## Where a conversion stops -/

/-- The character of the format after the length modifier. -/
def afterModifier (f : List Char) : List Char :=
  if peek f = 'l' then (if peek f.tail = 'l' then f.tail.tail else f.tail)
  else if peek f = 'h' then (if peek f.tail = 'h' then f.tail.tail else f.tail)
  else f

/-- The character of the format after the width and the length modifier. -/
def afterWidth (f : List Char) : List Char :=
  afterModifier (if peek f = '*' then f.tail else (scanDigits 0 f).2)

/-- The character of the format at which a conversion stops. -/
def conversionEnd (f : List Char) : List Char := afterWidth (scanZeros false (scanMinus f).2).2

/-- Where a length modifier leaves the format. -/
lemma modifierCase_format {m : Char} {once twice : Char → Option IntCase} {width : ℤ} {fl : Flags}
    (h : modifierCase a m once twice width fl p = .ok q) :
    q.format = if peek p.format.tail = m then p.format.tail.tail else p.format.tail := by
  rw [modifierCase] at h
  dsimp only at h
  split at h
  · next hm => rw [intSwitch_format h, if_pos hm]
  · next hm => rw [intSwitch_format h, if_neg hm]

/-- Where a conversion leaves the format. -/
lemma formatSwitch_format {width : ℤ} {fl : Flags} (h : formatSwitch a width fl p = .ok q) :
    q.format = afterModifier p.format := by
  rw [formatSwitch] at h
  rw [afterModifier]
  split at h
  · next hc =>
    cases h
    rw [hc, if_neg (by decide), if_neg (by decide)]
    rfl
  · next hc =>
    cases h
    rw [hc, if_neg (by decide), if_neg (by decide)]
    rfl
  · next hc => rw [if_pos hc, modifierCase_format h]
  · next hc =>
    rw [hc, if_neg (by decide), if_pos rfl, modifierCase_format h]
  · next hl hh => rw [if_neg hl, if_neg hh, intSwitch_format h]

/-- A conversion stops at the same character whatever its arguments are. -/
lemma conversion_format (h : conversion a p = .ok q) : q.format = conversionEnd p.format := by
  rw [conversion] at h
  rw [formatSwitch_format h, conversionEnd, afterWidth, scanWidth]
  split <;> rfl

/-! ## Places and the scanner -/

/-- After `f`, a specification of which `s` has been read stops at the first character of `g`. -/
structure StopsAt (s : Place) (f g : List Char) : Prop where
  nil : g = [] → (s.run f).Pending
  cons : ∀ c t, g = c :: t → s.run f = Place.run .text t

/-- A specification that goes on with its next character. -/
lemma StopsAt.cons_of_step {s' : Place} {c : Char} (h : StopsAt s' f g) (e : s.step c = s') :
    StopsAt s (c :: f) g := by
  subst e
  exact ⟨h.nil, h.cons⟩

/-- A specification that stops at its next character. -/
lemma stopsAt_self {c : Char} (h : s.step c = .text) : StopsAt s (c :: f) (c :: f) := by
  refine ⟨nofun, fun c' t e => ?_⟩
  cases e
  exact congrArg (Place.run · f) h

/-- A specification that the end of the format interrupts. -/
lemma stopsAt_nil (h : s.Pending) : StopsAt s [] [] := ⟨fun _ => h, nofun⟩

/-- A second percent sign stops where it is. -/
lemma stopsAt_doubled (f : List Char) : StopsAt .doubled f f := by
  cases f with
  | nil => exact stopsAt_nil (by decide)
  | cons c f => exact stopsAt_self rfl

/-- A length modifier that may be doubled. -/
lemma stopsAt_once {m : Char} (hs : ∀ c, s.step c = if c = m then .doubled else .text)
    (hp : s.Pending) (f : List Char) : StopsAt s f (if peek f = m then f.tail else f) := by
  cases f with
  | nil => split <;> exact stopsAt_nil hp
  | cons c f =>
    split
    · next hc => exact (stopsAt_doubled f).cons_of_step ((hs c).trans (if_pos hc))
    · next hc => exact stopsAt_self ((hs c).trans (if_neg hc))

/-- The length modifier, at a place from which it may follow. -/
lemma stopsAt_modifier {c : Char} (hs : s.step c = .modifier c) (f : List Char) :
    StopsAt s (c :: f) (afterModifier (c :: f)) := by
  rw [afterModifier]
  split
  · next hl => exact (stopsAt_once (fun _ => rfl) (by decide) f).cons_of_step (hs.trans (if_pos hl))
  · next hl =>
    split
    · next hh =>
      exact (stopsAt_once (fun _ => rfl) (by decide) f).cons_of_step
        (hs.trans ((if_neg hl).trans (if_pos hh)))
    · next hh => exact stopsAt_self (hs.trans ((if_neg hl).trans (if_neg hh)))

/-- After a star the modifier follows. -/
lemma stopsAt_star (f : List Char) : StopsAt .star f (afterModifier f) := by
  cases f with
  | nil => exact stopsAt_nil (by decide)
  | cons c f => exact stopsAt_modifier rfl f

/-- A digit of the width, at a place from which one may follow. -/
lemma stopsAt_inDigits {c : Char} (hs : s.step c = .inDigits c)
    (ih : ∀ width, StopsAt .digits f (afterModifier (scanDigits width f).2)) (width : ℤ) :
    StopsAt s (c :: f) (afterModifier (scanDigits width (c :: f)).2) := by
  rw [scanDigits]
  split
  · next hc => exact (ih _).cons_of_step (hs.trans (if_pos hc))
  · next hc => exact stopsAt_modifier (hs.trans (if_neg hc)) f

/-- After digits the modifier follows. -/
lemma stopsAt_digits (width : ℤ) (f : List Char) :
    StopsAt .digits f (afterModifier (scanDigits width f).2) := by
  induction f generalizing width with
  | nil => exact stopsAt_nil (by decide)
  | cons c f ih => exact stopsAt_inDigits rfl ih width

/-- What follows the flags, at a place from which they may follow. -/
lemma stopsAt_afterFlags {c : Char} (hs : s.step c = .afterFlags c)
    (ih : ∀ z, StopsAt .flags f (afterWidth (scanZeros z f).2)) (z : Bool) :
    StopsAt s (c :: f) (afterWidth (scanZeros z (c :: f)).2) := by
  rw [scanZeros]
  split
  · next hc => exact (ih true).cons_of_step (hs.trans (if_pos hc))
  · next hc =>
    have hs' := hs.trans (if_neg hc)
    rw [afterWidth]
    split
    · next hstar => exact (stopsAt_star f).cons_of_step (hs'.trans (if_pos hstar))
    · next hstar => exact stopsAt_inDigits (hs'.trans (if_neg hstar)) (stopsAt_digits · f) 0

/-- After the flags the width follows. -/
lemma stopsAt_flags (z : Bool) (f : List Char) : StopsAt .flags f (afterWidth (scanZeros z f).2) := by
  induction f generalizing z with
  | nil => exact stopsAt_nil (by decide)
  | cons c f ih => exact stopsAt_afterFlags rfl ih z

/-- A specification stops where its conversion does. -/
lemma stopsAt_conversionEnd (c : Char) (f : List Char) :
    StopsAt .percent (c :: f) (conversionEnd (c :: f)) := by
  rw [conversionEnd, scanMinus]
  split
  · next hc => exact (stopsAt_flags false f).cons_of_step (if_pos hc)
  · next hc =>
    have hs : Place.step .percent c = .afterFlags c := if_neg hc
    exact stopsAt_afterFlags hs (stopsAt_flags · f) false

/-! ## The loop -/

/-- What `advance` has done when it returns. -/
lemma advance_ok (h : advance p = .ok q) :
    peek p.format ≠ '\x00' ∧ q = { p with format := p.format.tail } := by
  obtain ⟨f, hf, h⟩ := bind_eq_ok.1 h
  cases h
  rw [next] at hf
  split at hf
  · cases hf
  · next hp =>
    cases hf
    exact ⟨hp, rfl⟩

/-- `advance` returns unless it is at the end. -/
lemma advance_of_peek (h : peek p.format ≠ '\x00') :
    advance p = .ok { p with format := p.format.tail } := by
  rw [advance, next, if_neg h, ok_bind]

/-- What an iteration of the loop does with the format: it stops at a `%` that ends it, takes `%%`, takes
a conversion, or takes a character of text. -/
lemma body_cases (a : Call) (hp : peek p.format ≠ '\x00') :
    (peek p.format = '%' ∧ peek p.format.tail = '\x00' ∧ body a p = .ok (afterPercent p)) ∨
    (peek p.format = '%' ∧ peek p.format.tail = '%' ∧
      body a p = .ok { literal (afterPercent p) with format := p.format.tail.tail }) ∨
    (AtConversion p ∧ body a p = conversion a (afterPercent p) >>= advance) ∨
    (peek p.format ≠ '%' ∧ body a p = .ok { literal p with format := p.format.tail }) := by
  rw [body]
  split
  · next hc =>
    dsimp only
    split_ifs with hnul hpercent
    · exact .inl ⟨hc, hnul, rfl⟩
    · exact .inr (.inl ⟨hc, hpercent, advance_of_peek (p := literal (afterPercent p)) hnul⟩)
    · exact .inr (.inr (.inl ⟨⟨hc, hnul, hpercent⟩, rfl⟩))
  · next hc => exact .inr (.inr (.inr ⟨hc, advance_of_peek (p := literal p) hp⟩))

/-- An iteration of the loop takes a piece of the format. -/
lemma body_suffix (hp : peek p.format ≠ '\x00') (h : body a p = .ok q) : q.format <:+ p.format := by
  have htail := List.tail_suffix p.format
  obtain ⟨-, -, hb⟩ | ⟨-, -, hb⟩ | ⟨-, hb⟩ | ⟨-, hb⟩ := body_cases a hp
  · cases hb.symm.trans h
    exact htail
  · cases hb.symm.trans h
    exact (List.tail_suffix _).trans htail
  · obtain ⟨p', h', h⟩ := bind_eq_ok.1 (hb.symm.trans h)
    rw [(advance_ok h).2]
    exact ((List.tail_suffix _).trans (conversion_suffix h')).trans htail
  · cases hb.symm.trans h
    exact htail

/-- A sequence with its first character. -/
lemma eq_cons_of_peek {c : Char} (hc : c ≠ '\x00') (h : peek f = c) : f = c :: f.tail := by
  cases f with
  | nil => exact absurd h.symm hc
  | cons d f => exact congrArg (· :: f) h

/-- A conversion takes the specification at which it stands. -/
lemma AtConversion.stopsAt (hp : AtConversion p) (h : conversion a (afterPercent p) = .ok q) :
    StopsAt .text p.format q.format := by
  have hf := eq_cons_of_peek (by decide) hp.1
  have hg := eq_cons_of_peek hp.2.1 rfl
  rw [hf, conversion_format h, afterPercent, hg]
  exact (stopsAt_conversionEnd _ _).cons_of_step rfl

/-- The format that a conversion leaves behind ends inside the specification. -/
lemma Overruns.truncated (hnul : '\x00' ∉ p.format) (h : Overruns a p) : Truncated p.format := by
  obtain ⟨hp, q, hq, hend⟩ := h
  have hsuffix : q.format <:+ p.format := (conversion_suffix hq).trans (List.tail_suffix _)
  have hnil := (peek_eq_nul_iff fun hc => hnul (hsuffix.subset hc)).1 hend
  exact (hp.stopsAt hq).nil hnil

/-- An iteration of the loop keeps whether the format ends inside a specification. -/
lemma truncated_body (hnul : '\x00' ∉ p.format) (hp : peek p.format ≠ '\x00') (h : body a p = .ok q) :
    Truncated q.format ↔ Truncated p.format := by
  obtain ⟨hc, hd, hb⟩ | ⟨hc, hd, hb⟩ | ⟨hp, hb⟩ | ⟨hc, hb⟩ := body_cases a hp
  · -- Neither the format `%` nor what is left of it ends inside a specification.
    cases hb.symm.trans h
    have hnil := (peek_eq_nul_iff fun hd => hnul (List.mem_of_mem_tail hd)).1 hd
    have hf := eq_cons_of_peek (by decide) hc
    rw [hnil] at hf
    rw [afterPercent, hf]
    exact (by decide : Truncated [] ↔ Truncated ['%'])
  · cases hb.symm.trans h
    have hf := eq_cons_of_peek (by decide) hc
    have hg := eq_cons_of_peek (by decide) hd
    rw [Truncated, Truncated, hf, hg]
    rfl
  · obtain ⟨p', h', h⟩ := bind_eq_ok.1 (hb.symm.trans h)
    have hadv := advance_ok h
    have hcons := eq_cons_of_peek hadv.1 rfl
    rw [Truncated, Truncated, (hp.stopsAt h').cons _ _ hcons, hadv.2]
  · cases hb.symm.trans h
    have hf := eq_cons_of_peek hp rfl
    have hstep : Place.step .text (peek p.format) = .text := if_neg hc
    have hrun : Place.run .text p.format = Place.run .text p.format.tail := by
      rw [hf]
      exact congrArg (Place.run · p.format.tail) hstep
    rw [Truncated, Truncated, hrun]

/-- An iteration of the loop goes wrong only in these two ways. -/
lemma body_error {e : Fault} (hp : peek p.format ≠ '\x00') (h : body a p = .error e) :
    Overruns a p ∨ LeavesBuffer a p := by
  obtain ⟨-, -, hb⟩ | ⟨-, -, hb⟩ | ⟨hp, hb⟩ | ⟨-, hb⟩ := body_cases a hp
  · cases hb.symm.trans h
  · cases hb.symm.trans h
  · cases hq : conversion a (afterPercent p) with
    | error e => exact .inr ⟨hp, e, hq⟩
    | ok q =>
      refine .inl ⟨hp, q, hq, ?_⟩
      by_contra hne
      rw [hb, hq, ok_bind, advance_of_peek hne] at h
      cases h
  · cases hb.symm.trans h

/-- What is left of the format at the head of the loop ends as the format does. -/
lemma Reaches.format_ends (hnul : '\x00' ∉ a.format) (h : Reaches a p) :
    '\x00' ∉ p.format ∧ (Truncated p.format ↔ Truncated a.format) := by
  induction h with
  | start => exact ⟨hnul, Iff.rfl⟩
  | step _ hp hb ih =>
    refine ⟨fun hc => ih.1 ((body_suffix hp hb).subset hc), ?_⟩
    exact (truncated_body ih.1 hp hb).trans ih.2

/-- The loop ends at NUL. -/
lemma vsprintfLoop_of_peek (h : peek p.format = '\x00') : vsprintfLoop a p = .ok p := by
  rw [vsprintfLoop, if_pos h]

/-- The loop goes on after a character or a specification. -/
lemma vsprintfLoop_of_body (h : peek p.format ≠ '\x00') (hb : body a p = .ok q) :
    vsprintfLoop a p = vsprintfLoop a q := by
  rw [vsprintfLoop, if_neg h]
  split
  · next q' hq =>
    cases hq.symm.trans hb
    rfl
  · next e he => cases he.symm.trans hb

/-- From every iteration on, the loop ends at the NUL or one of the two things goes wrong. -/
lemma vsprintfLoop_ends (hnul : '\x00' ∉ a.format) (h : Reaches a p) :
    (∃ q, vsprintfLoop a p = .ok q ∧ q.format = [] ∧ Reaches a q) ∨
      ∃ q, Reaches a q ∧ (Overruns a q ∨ LeavesBuffer a q) := by
  -- Every iteration takes a character of the format at least.
  induction hn : p.format.length using Nat.strong_induction_on generalizing p with
  | _ n ih =>
    by_cases hp : peek p.format = '\x00'
    · have hnil := (peek_eq_nul_iff (h.format_ends hnul).1).1 hp
      exact .inl ⟨p, vsprintfLoop_of_peek hp, hnil, h⟩
    · cases hb : body a p with
      | error e => exact .inr ⟨p, h, body_error hp hb⟩
      | ok q =>
        rw [vsprintfLoop_of_body hp hb]
        exact ih _ (hn ▸ body_length hp hb) (h.step hp hb) rfl

/-- A format that does not end inside a specification is not left behind, whatever the arguments. -/
lemma inside_of_not_truncated (hnul : '\x00' ∉ a.format) (h : ¬Truncated a.format) : Inside a := by
  have hover : ∀ p, Reaches a p → ¬Overruns a p := by
    intro p hp ho
    obtain ⟨hp, hiff⟩ := hp.format_ends hnul
    exact h (hiff.1 (ho.truncated hp))
  refine ⟨hover, ?_⟩
  obtain ⟨q, hq, hnil, -⟩ | ⟨q, hq, ho | hl⟩ := vsprintfLoop_ends hnul (Reaches.start (a := a))
  · exact .inl ⟨q, hq, hnil⟩
  · exact absurd ho (hover q hq)
  · exact .inr ⟨q, hq, hl⟩

/-- A format that ends inside a specification is left behind, unless the call goes wrong before. -/
lemma exists_overruns (hnul : '\x00' ∉ a.format) (h : Truncated a.format)
    (hbuf : ∀ p, Reaches a p → ¬LeavesBuffer a p) : ∃ p, Reaches a p ∧ Overruns a p := by
  obtain ⟨q, -, hnil, hq⟩ | ⟨q, hq, ho | hl⟩ := vsprintfLoop_ends hnul (Reaches.start (a := a))
  · have ht := (hq.format_ends hnul).2.2 h
    rw [hnil] at ht
    exact absurd ht (by decide)
  · exact ⟨q, hq, ho⟩
  · exact absurd hl (hbuf q hq)

/-- The call with all its arguments zero. -/
def zeroCall (format : List Char) : Call := ⟨format, fun _ => 0, fun _ => [], 0⟩

/-- Storing zero in a union of zeros. -/
lemma store_zero (m : Member) : store 0 m 0 = 0 := by
  cases m <;> decide

/-- The members of a union of zeros are zero. -/
lemma load_zero (m : Member) : load 0 m = 0 := by
  cases m <;> decide

/-- A zero fits into the buffer. -/
lemma zeroCall_intSwitch {cases : Char → Option IntCase} {width : ℤ} {fl : Flags} (hu : p.u = 0) :
    ∃ q, intSwitch (zeroCall f) cases width fl p = .ok q ∧ q.u = 0 := by
  rw [intSwitch]
  split
  · next k _ =>
    have hst : store p.u k.write ((zeroCall f).args p.ap) = 0 := by
      rw [hu]
      exact store_zero k.write
    have hout : simpleOutputi 0 k.base k.sign width fl k.letbase = .ok (prints ['0'] width fl) :=
      if_pos rfl
    rw [intCase, hst, load_zero, hout]
    exact ⟨_, rfl, rfl⟩
  · exact ⟨p, rfl, hu⟩

/-- With zero arguments a modifier keeps the union zero. -/
lemma zeroCall_modifierCase {m : Char} {once twice : Char → Option IntCase} {width : ℤ} {fl : Flags}
    (hu : p.u = 0) : ∃ q, modifierCase (zeroCall f) m once twice width fl p = .ok q ∧ q.u = 0 := by
  rw [modifierCase]
  dsimp only
  split
  · exact zeroCall_intSwitch hu
  · exact zeroCall_intSwitch hu

/-- With zero arguments a conversion keeps the union zero. -/
lemma zeroCall_formatSwitch {width : ℤ} {fl : Flags} (hu : p.u = 0) :
    ∃ q, formatSwitch (zeroCall f) width fl p = .ok q ∧ q.u = 0 := by
  have hst : ∀ m, store p.u m ((zeroCall f).args p.ap) = 0 := by
    intro m
    rw [hu]
    exact store_zero m
  rw [formatSwitch]
  split
  · exact ⟨_, rfl, hst .c⟩
  · exact ⟨_, rfl, hst .s⟩
  · exact zeroCall_modifierCase hu
  · exact zeroCall_modifierCase hu
  · exact zeroCall_intSwitch hu

/-- With zero arguments a specification keeps the union zero. -/
lemma zeroCall_conversion (hu : p.u = 0) : ∃ q, conversion (zeroCall f) p = .ok q ∧ q.u = 0 := by
  rw [conversion]
  exact zeroCall_formatSwitch hu

/-- The union stays zero. -/
lemma zeroCall_body (hp : peek p.format ≠ '\x00') (hu : p.u = 0) (h : body (zeroCall f) p = .ok q) :
    q.u = 0 := by
  obtain ⟨-, -, hb⟩ | ⟨-, -, hb⟩ | ⟨-, hb⟩ | ⟨-, hb⟩ := body_cases (zeroCall f) hp
  · cases hb.symm.trans h
    exact hu
  · cases hb.symm.trans h
    exact hu
  · obtain ⟨p', hp', hu'⟩ := zeroCall_conversion (p := afterPercent p) hu
    rw [hb, hp', ok_bind] at h
    rw [(advance_ok h).2]
    exact hu'
  · cases hb.symm.trans h
    exact hu

/-- No conversion of the call leaves the buffer. -/
lemma zeroCall_keeps_buffer (hp : Reaches (zeroCall f) p) : ¬LeavesBuffer (zeroCall f) p := by
  have hu : p.u = 0 := by
    induction hp with
    | start => rfl
    | step _ hp hb ih => exact zeroCall_body hp ih hb
  rintro ⟨-, e, he⟩
  obtain ⟨q, hq, -⟩ := zeroCall_conversion (p := afterPercent p) hu
  cases hq.symm.trans he

/-- Whatever its arguments are, `simple_vsprintf` examines no character behind the NUL of a format and
its loop ends there, if and only if the format does not end inside a conversion specification. -/
theorem inside_iff (f : List Char) (hf : '\x00' ∉ f) :
    (∀ a : Call, a.format = f → Inside a) ↔ ¬Truncated f := by
  constructor
  · intro h ht
    obtain ⟨p, hp, ho⟩ := exists_overruns (a := zeroCall f) hf ht fun p => zeroCall_keeps_buffer
    exact (h (zeroCall f) rfl).1 p hp ho
  · intro ht a ha
    subst ha
    exact inside_of_not_truncated hf ht

/-- The formats `50%` and `%-08lx of %y` are not left behind. -/
theorem inside_percent_and_unknown :
    (∀ a : Call, a.format = "50%".toList → Inside a) ∧
      ∀ a : Call, a.format = "%-08lx of %y".toList → Inside a :=
  ⟨(inside_iff "50%".toList (by decide)).2 (by decide),
    (inside_iff "%-08lx of %y".toList (by decide)).2 (by decide)⟩

/-- A call with the format `%5l` steps over the NUL. -/
theorem truncated_overruns : '\x00' ∉ "%5l".toList ∧ ¬Inside (zeroCall "%5l".toList) := by
  refine ⟨by decide, fun h => h.1 _ .start ?_⟩
  exact ⟨⟨rfl, by decide, by decide⟩, _, rfl, rfl⟩

end KingdoKernel.Printk
