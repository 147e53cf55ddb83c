import KingdoKernel.Lib.BitField

/-!
# Cache maintenance

Model of `invalidate_cache_all` in `arch/aarch64/boot/raspi3/init/tools.S` and of `flush_dcache_area` in
`arch/aarch64/tools.S`. A block of instructions, up to the next label or branch target, is a function on
the registers with a line for each instruction. A `w` register is a number below `2 ^ 32`, and the amount
of a shift by a register counts modulo the width. What the caches look like is up to the hardware:
`ccsidr` gives what `ccsidr_el1` reads after `csselr_el1` is written. Barriers are not modelled.

`invalidate_cache_all` composes the operand of `dc isw` from the level, the way and the set, counting the
last two down in place. `Line.of` is what the architecture takes from an operand, and
`invalidate_cache_all_lines` says that the operands are those of the lines of all data and unified caches
up to the level of coherence, each once. `flush_dcache_area_lines` is the statement about addresses.
-/

namespace KingdoKernel.Cache
open BitField StateTransition

/-- A register of `w` bits as a signed number. -/
def signed (w v : ℕ) : ℤ := if v < 2 ^ (w - 1) then v else v - 2 ^ w

/-- `clz wd, wn`. -/
def clz (v : ℕ) : ℕ := 32 - v.size

/-- `lsl wd, wn, wm`. -/
def lsl (v k : ℕ) : ℕ := v <<< (k % 32) % 2 ^ 32

/-- `lsr wd, wn, wm`. -/
def lsr (v k : ℕ) : ℕ := v >>> (k % 32)

/-- The labels of `invalidate_cache_all`; `way` is where the loop over the sets ends. -/
inductive Label where
  | loop1 | loop2 | loop3 | way | skip | finished | ret
deriving DecidableEq, Repr

/-- The registers of `invalidate_cache_all`, the operands of the `dc isw` executed, and whether
`ic iallu` was. -/
structure Regs where
  label : Label
  w0 : ℕ
  w1 : ℕ
  w2 : ℕ
  w3 : ℕ
  w4 : ℕ
  w5 : ℕ
  w7 : ℕ
  w8 : ℕ
  x9 : ℕ
  w10 : ℕ
  w12 : ℕ
  w13 : ℕ
  isw : List ℕ
  iallu : Bool

/-- The instructions before the loops. -/
def invalidateCacheAll (r : Regs) (clidr : ℕ) : Regs :=
  let w0 := clidr % 2 ^ 32
  let w3 := w0 &&& 0x07000000
  let w3 := w3 >>> 23
  if w3 = 0 then { r with label := .finished, w0, w3, isw := [], iallu := false }
  else { r with label := .loop1, w0, w3, w10 := 0, w8 := 1, isw := [], iallu := false }

/-- `.Lloop1_inv_cache`. -/
def loop1 (ccsidr : ℕ → ℕ) (r : Regs) : Regs :=
  let w2 := (r.w10 + r.w10 >>> 1) % 2 ^ 32
  let w1 := lsr r.w0 w2
  let w1 := w1 &&& 0x7
  if signed 32 w1 < signed 32 2 then { r with label := .skip, w1, w2 }
  else
    let csselr := r.w10
    let w1 := ccsidr csselr % 2 ^ 32
    let w2 := w1 &&& 7
    let w2 := (w2 + 4) % 2 ^ 32
    let w4 := getBits w1 3 10
    let w5 := clz w4
    let x9 := lsl w4 w5
    let w12 := lsl r.w8 w5
    { r with label := .loop2, w1, w2, w4, w5, x9, w12 }

/-- `.Lloop2_inv_cache`. -/
def loop2 (r : Regs) : Regs :=
  let w7 := getBits r.w1 13 15
  let w7 := lsl w7 r.w2
  let w13 := lsl r.w8 r.w2
  { r with label := .loop3, w7, w13 }

/-- `.Lloop3_inv_cache`. -/
def loop3 (r : Regs) : Regs :=
  let w11 := r.w10 ||| r.x9 % 2 ^ 32
  let w11 := w11 ||| r.w7
  let isw := r.isw ++ [w11]
  let w7 := (r.w7 + 2 ^ 32 - r.w13) % 2 ^ 32
  if signed 32 r.w7 ≥ signed 32 r.w13 then { r with label := .loop3, w7, isw }
  else { r with label := .way, w7, isw }

/-- The end of the loop over the ways; the subtraction is of `x` registers. -/
def way (r : Regs) : Regs :=
  let x9 := (r.x9 + 2 ^ 64 - r.w12) % 2 ^ 64
  if signed 64 r.x9 ≥ signed 64 r.w12 then { r with label := .loop2, x9 }
  else { r with label := .skip, x9 }

/-- `.Lskip_inv_cache`. -/
def skip (r : Regs) : Regs :=
  let w10 := (r.w10 + 2) % 2 ^ 32
  if signed 32 r.w3 > signed 32 w10 then { r with label := .loop1, w10 }
  else { r with label := .finished, w10 }

/-- One block; `none` after `ret`. -/
def step (ccsidr : ℕ → ℕ) (r : Regs) : Option Regs :=
  match r.label with
  | .loop1 => some (loop1 ccsidr r)
  | .loop2 => some (loop2 r)
  | .loop3 => some (loop3 r)
  | .way => some (way r)
  | .skip => some (skip r)
  | .finished => some { r with label := .ret, iallu := true }
  | .ret => none

/-! ## What the architecture says -/

/-- `LoC` in `clidr_el1`. -/
def levelOfCoherence (clidr : ℕ) : ℕ := getBits clidr 24 3

/-- There is a data or unified cache at this level: `Ctype` in `clidr_el1` is at least 2. -/
def HasData (clidr level : ℕ) : Prop := 2 ≤ getBits clidr (3 * level) 3

instance (clidr level : ℕ) : Decidable (HasData clidr level) := inferInstanceAs (Decidable (_ ≤ _))

/-- The logarithm of the length of a line. -/
def lineShift (ccsidr : ℕ) : ℕ := getBits ccsidr 0 3 + 4

/-- The number of ways. -/
def ways (ccsidr : ℕ) : ℕ := getBits ccsidr 3 10 + 1

/-- The number of sets. -/
def sets (ccsidr : ℕ) : ℕ := getBits ccsidr 13 15 + 1

/-- The width of the way in an operand. -/
def wayWidth (ccsidr : ℕ) : ℕ := Nat.clog 2 (ways ccsidr)

/-- The width of the set in an operand. -/
def setWidth (ccsidr : ℕ) : ℕ := Nat.clog 2 (sets ccsidr)

/-- A line of a cache. -/
@[ext]
structure Line where
  level : ℕ
  way : ℕ
  set : ℕ
deriving DecidableEq, Repr

/-- The line that an operand of `dc isw` selects. -/
def Line.of (ccsidr : ℕ → ℕ) (op : ℕ) : Line :=
  let level := getBits op 1 3
  let g := ccsidr (2 * level)
  ⟨level, getBits op (32 - wayWidth g) (wayWidth g), getBits op (lineShift g) (setWidth g)⟩

/-- The lines of the cache at a level, in the order of the loops. -/
def lines (g level : ℕ) : List Line :=
  (List.range (ways g)).reverse.flatMap fun w => (List.range (sets g)).reverse.map fun s => ⟨level, w, s⟩

/-- Level, set and way have places of their own in an operand. -/
def Fits (g : ℕ) : Prop := lineShift g + setWidth g + wayWidth g ≤ 32

instance (g : ℕ) : Decidable (Fits g) := inferInstanceAs (Decidable (_ ≤ _))

/-! ## The operands -/

section Operand

variable {g g' n : ℕ} {l : Line} {ccsidr : ℕ → ℕ}

/-- The operand of a line. -/
def operand (g : ℕ) (l : Line) : ℕ := 2 * l.level ||| l.way * 2 ^ (32 - wayWidth g) ||| l.set * 2 ^ lineShift g

/-- The number of a way fits its field. -/
lemma way_lt (h : l.way < ways g) : l.way < 2 ^ wayWidth g := h.trans_le (Nat.le_pow_clog (by norm_num) _)

/-- The number of a set fits its field. -/
lemma set_lt (h : l.set < sets g) : l.set < 2 ^ setWidth g := h.trans_le (Nat.le_pow_clog (by norm_num) _)

/-- The architecture reads a line from its operand. -/
lemma of_operand (hfit : Fits (ccsidr (2 * l.level))) (hl : l.level < 8)
    (hw : l.way < ways (ccsidr (2 * l.level))) (hs : l.set < sets (ccsidr (2 * l.level))) :
    Line.of ccsidr (operand (ccsidr (2 * l.level)) l) = l := by
  generalize hg : ccsidr (2 * l.level) = g at hfit hw hs ⊢
  have hw' := way_lt hw
  have hs' := set_lt hs
  unfold Fits at hfit
  have h4 : 4 ≤ lineShift g := by
    unfold lineShift
    omega
  have hset : l.set * 2 ^ lineShift g < 2 ^ (32 - wayWidth g) :=
    calc l.set * 2 ^ lineShift g < 2 ^ setWidth g * 2 ^ lineShift g :=
          Nat.mul_lt_mul_of_pos_right hs' (Nat.two_pow_pos _)
      _ = 2 ^ (lineShift g + setWidth g) := by rw [← pow_add, Nat.add_comm]
      _ ≤ 2 ^ (32 - wayWidth g) := Nat.pow_le_pow_right (by norm_num) (by omega)
  have hlow : 2 * l.level < 2 ^ lineShift g :=
    calc 2 * l.level < 2 ^ 4 := by omega
      _ ≤ 2 ^ lineShift g := Nat.pow_le_pow_right (by norm_num) h4
  have hlevel : getBits (operand g l) 1 3 = l.level := by
    have e1 : getBits (2 * l.level) 1 3 = l.level := by
      rw [Nat.mul_comm]
      exact getBits_mul_self l.level 1 3 hl
    rw [operand, getBits_or, getBits_or, e1, getBits_mul_of_le _ (by omega), getBits_mul_of_le _ (by omega),
      Nat.or_zero, Nat.or_zero]
  rw [Line.of, hlevel, hg]
  refine Line.ext rfl ?_ ?_
  · change getBits (operand g l) _ _ = _
    rw [operand, getBits_or, getBits_or, getBits_mul_self _ _ _ hw', getBits_of_lt hset, getBits_of_lt, Nat.zero_or,
      Nat.or_zero]
    exact hlow.trans_le (Nat.pow_le_pow_right (by norm_num) (by omega))
  · change getBits (operand g l) _ _ = _
    rw [operand, getBits_or, getBits_or, getBits_mul_self _ _ _ hs', getBits_of_lt hlow,
      getBits_mul_of_le _ (by omega), Nat.zero_or, Nat.zero_or]

/-- The lines of a level. -/
lemma mem_lines : l ∈ lines g n ↔ l.level = n ∧ l.way < ways g ∧ l.set < sets g := by
  simp only [lines, List.mem_flatMap, List.mem_reverse, List.mem_range, List.mem_map]
  constructor
  · rintro ⟨w, hw, s, hs, rfl⟩
    exact ⟨rfl, hw, hs⟩
  · rintro ⟨rfl, hw, hs⟩
    exact ⟨l.way, hw, l.set, hs, rfl⟩

/-- No line of a level is listed twice. -/
lemma nodup_lines (g n : ℕ) : (lines g n).Nodup := by
  refine List.nodup_flatMap.2 ⟨fun w _ => ?_, ?_⟩
  · exact (List.nodup_reverse.2 List.nodup_range).map fun s s' e => congrArg Line.set e
  · refine (List.nodup_reverse.2 List.nodup_range).imp fun {w w'} hne l hl hl' => hne ?_
    obtain ⟨s, -, rfl⟩ := List.mem_map.1 hl
    obtain ⟨s', -, e⟩ := List.mem_map.1 hl'
    exact (congrArg Line.way e).symm

end Operand

/-! ## The loops -/

section Loops

variable {ccsidr : ℕ → ℕ} {r : Regs} {g n k P : ℕ}

/-- A number below the sign bit is read as itself. -/
lemma signed_of_lt {w v : ℕ} (h : v < 2 ^ (w - 1)) : signed w v = v := if_pos h

/-- Counting down from `k`. -/
lemma range_reverse_succ (k : ℕ) : (List.range (k + 1)).reverse = k :: (List.range k).reverse := by
  rw [List.range_succ, List.reverse_append]
  rfl

/-- One block and then the others. -/
lemma reaches_head {r r' r'' : Regs} (h : step ccsidr r = some r') (h' : Reaches (step ccsidr) r' r'') :
    Reaches (step ccsidr) r r'' := Relation.ReflTransGen.head h h'

/-- The loop over the sets, from set `k` on. -/
lemma loop3_run (ccsidr : ℕ → ℕ) (hl : r.label = .loop3) (h7 : r.w7 = k * 2 ^ n) (h13 : r.w13 = 2 ^ n)
    (hk : k * 2 ^ n < 2 ^ 31) (hn : n < 31) : ∃ w7, Reaches (step ccsidr) r
      { r with
        label := .way
        w7 := w7
        isw := r.isw ++ (List.range (k + 1)).reverse.map fun s => r.w10 ||| r.x9 % 2 ^ 32 ||| s * 2 ^ n } := by
  have h31 : 2 ^ n < 2 ^ (32 - 1) := Nat.pow_lt_pow_right (by norm_num) hn
  induction k generalizing r with
  | zero =>
    have hs : ¬ signed 32 r.w7 ≥ signed 32 r.w13 := by
      rw [h7, h13, signed_of_lt h31, signed_of_lt (by omega)]
      have hpos : 0 < 2 ^ n := Nat.two_pow_pos n
      omega
    refine ⟨(r.w7 + 2 ^ 32 - r.w13) % 2 ^ 32, reaches_head ?_ .refl⟩
    rw [step, hl]
    simp only [loop3]
    rw [if_neg hs, h7]
    rfl
  | succ k ih =>
    have hmul : (k + 1) * 2 ^ n = k * 2 ^ n + 2 ^ n := Nat.succ_mul k _
    have e : (r.w7 + 2 ^ 32 - r.w13) % 2 ^ 32 = k * 2 ^ n := by
      rw [h7, h13]
      omega
    have hs : signed 32 r.w7 ≥ signed 32 r.w13 := by
      rw [h7, h13, signed_of_lt h31, signed_of_lt hk]
      omega
    have h1 : step ccsidr r = some { r with
        label := .loop3
        w7 := k * 2 ^ n
        isw := r.isw ++ [r.w10 ||| r.x9 % 2 ^ 32 ||| (k + 1) * 2 ^ n] } := by
      rw [step, hl]
      simp only [loop3]
      rw [if_pos hs, e, h7]
    obtain ⟨w7, h2⟩ := ih (r := { r with
        label := .loop3
        w7 := k * 2 ^ n
        isw := r.isw ++ [r.w10 ||| r.x9 % 2 ^ 32 ||| (k + 1) * 2 ^ n] }) rfl rfl h13 (by omega)
    rw [range_reverse_succ, List.map_cons, List.append_cons]
    exact ⟨w7, reaches_head h1 h2⟩

/-- One iteration of the loop over the ways. -/
lemma way_run (ccsidr : ℕ → ℕ) (hl : r.label = .loop2) (h8 : r.w8 = 1) (h2 : r.w2 = lineShift g)
    (h1 : getBits r.w1 13 15 = getBits g 13 15) (hx : r.x9 < 2 ^ 32) : ∃ w7,
    Reaches (step ccsidr) r (way { r with
      label := .way
      w7 := w7
      w13 := 2 ^ lineShift g
      isw := r.isw ++ (List.range (sets g)).reverse.map fun s => r.w10 ||| r.x9 ||| s * 2 ^ lineShift g }) := by
  have hL : lineShift g < 12 := by
    have hlt := getBits_lt g 0 3
    unfold lineShift
    omega
  have hset : getBits g 13 15 * 2 ^ lineShift g < 2 ^ 31 :=
    calc getBits g 13 15 * 2 ^ lineShift g < 2 ^ 15 * 2 ^ lineShift g :=
          Nat.mul_lt_mul_of_pos_right (getBits_lt g 13 15) (Nat.two_pow_pos _)
      _ = 2 ^ (15 + lineShift g) := (pow_add _ _ _).symm
      _ ≤ 2 ^ 31 := Nat.pow_le_pow_right (by norm_num) (by omega)
  have hmod : lineShift g % 32 = lineShift g := Nat.mod_eq_of_lt (by omega)
  have e : step ccsidr r = some { r with
      label := .loop3
      w7 := getBits g 13 15 * 2 ^ lineShift g
      w13 := 2 ^ lineShift g } := by
    rw [step, hl]
    simp only [loop2, lsl, h8, h2, h1, hmod, Nat.shiftLeft_eq]
    rw [Nat.mod_eq_of_lt (by omega), Nat.one_mul, Nat.mod_eq_of_lt]
    exact Nat.pow_lt_pow_right (by norm_num) (by omega)
  obtain ⟨w7, h⟩ := loop3_run ccsidr (r := { r with
      label := .loop3
      w7 := getBits g 13 15 * 2 ^ lineShift g
      w13 := 2 ^ lineShift g }) rfl rfl rfl hset (by omega)
  refine ⟨w7, reaches_head e (Relation.ReflTransGen.tail h ?_)⟩
  rw [Nat.mod_eq_of_lt hx]
  rfl

/-- The loop over the ways, from way `k` on. -/
lemma loop2_run (ccsidr : ℕ → ℕ) (hl : r.label = .loop2) (h9 : r.x9 = k * 2 ^ P) (h12 : r.w12 = 2 ^ P)
    (h8 : r.w8 = 1) (h2 : r.w2 = lineShift g) (h1 : getBits r.w1 13 15 = getBits g 13 15)
    (hk : k * 2 ^ P < 2 ^ 32) (hP : P < 32) : ∃ w7 x9 w13, Reaches (step ccsidr) r
      { r with
        label := .skip
        w7 := w7
        x9 := x9
        w13 := w13
        isw := r.isw ++ (List.range (k + 1)).reverse.flatMap fun w => (List.range (sets g)).reverse.map fun s =>
          r.w10 ||| w * 2 ^ P ||| s * 2 ^ lineShift g } := by
  have h33 : 2 ^ P < 2 ^ 32 := Nat.pow_lt_pow_right (by norm_num) hP
  induction k generalizing r with
  | zero =>
    obtain ⟨w7, h⟩ := way_run ccsidr hl h8 h2 h1 (by omega)
    refine ⟨w7, (r.x9 + 2 ^ 64 - r.w12) % 2 ^ 64, 2 ^ lineShift g, ?_⟩
    have hs : ¬ signed 64 r.x9 ≥ signed 64 r.w12 := by
      rw [h9, h12, signed_of_lt (by omega), signed_of_lt (by omega)]
      have hpos : 0 < 2 ^ P := Nat.two_pow_pos P
      omega
    simp only [way] at h
    rw [if_neg hs] at h
    rw [range_reverse_succ, List.range_zero, List.reverse_nil, List.flatMap_cons, List.flatMap_nil, List.append_nil,
      ← h9]
    exact h
  | succ k ih =>
    have hmul : (k + 1) * 2 ^ P = k * 2 ^ P + 2 ^ P := Nat.succ_mul k _
    obtain ⟨w7, h⟩ := way_run ccsidr hl h8 h2 h1 (by omega)
    have e : (r.x9 + 2 ^ 64 - r.w12) % 2 ^ 64 = k * 2 ^ P := by
      rw [h9, h12]
      omega
    have hs : signed 64 r.x9 ≥ signed 64 r.w12 := by
      rw [h9, h12, signed_of_lt (by omega), signed_of_lt (by omega)]
      omega
    simp only [way] at h
    rw [if_pos hs, e] at h
    obtain ⟨w7', x9', w13', h'⟩ := ih (r := { r with
        label := .loop2
        w7 := w7
        x9 := k * 2 ^ P
        w13 := 2 ^ lineShift g
        isw := r.isw ++ (List.range (sets g)).reverse.map fun s => r.w10 ||| r.x9 ||| s * 2 ^ lineShift g })
      rfl rfl h12 h8 h2 h1 (by omega)
    refine ⟨w7', x9', w13', Relation.ReflTransGen.trans h ?_⟩
    rw [range_reverse_succ, List.flatMap_cons, ← List.append_assoc, ← h9]
    exact h'

/-- The position of the way in an operand, from the number of leading zeros. -/
lemma clz_ways (g : ℕ) : clz (getBits g 3 10) = 32 - wayWidth g := by
  have e : (getBits g 3 10).size = wayWidth g := by
    refine eq_of_forall_ge_iff fun c => ?_
    rw [Nat.size_le, wayWidth, ways, Nat.clog_le_iff_le_pow (by norm_num)]
    exact Iff.rfl
  rw [clz, e]

/-- The field of the ways has at most ten bits. -/
lemma wayWidth_le (g : ℕ) : wayWidth g ≤ 10 :=
  Nat.clog_le_of_le_pow (getBits_lt g 3 10)

/-- A way at its position in an operand; of a single way nothing is left there. -/
lemma way_shift {w : ℕ} (hw : w < ways g) :
    w * 2 ^ ((32 - wayWidth g) % 32) = w * 2 ^ (32 - wayWidth g) ∧ w * 2 ^ (32 - wayWidth g) < 2 ^ 32 := by
  have hlt : w < 2 ^ wayWidth g := hw.trans_le (Nat.le_pow_clog (by norm_num) _)
  have hle := wayWidth_le g
  constructor
  · by_cases h0 : wayWidth g = 0
    · rw [h0, pow_zero] at hlt
      rw [Nat.lt_one_iff.1 hlt, Nat.zero_mul, Nat.zero_mul]
    · rw [Nat.mod_eq_of_lt (by omega)]
  · calc w * 2 ^ (32 - wayWidth g) < 2 ^ wayWidth g * 2 ^ (32 - wayWidth g) :=
          Nat.mul_lt_mul_of_pos_right hlt (Nat.two_pow_pos _)
      _ = 2 ^ 32 := by rw [← pow_add, Nat.add_sub_cancel' (by omega)]

/-- The operands of a level, if there is something to invalidate. -/
def operands (clidr : ℕ) (ccsidr : ℕ → ℕ) (n : ℕ) : List ℕ :=
  if HasData clidr n then (lines (ccsidr (2 * n)) n).map (operand (ccsidr (2 * n))) else []

/-- One level. -/
lemma loop1_run (ccsidr : ℕ → ℕ) {clidr : ℕ} (hl : r.label = .loop1) (h0 : r.w0 = clidr % 2 ^ 32)
    (h8 : r.w8 = 1) (h10 : r.w10 = 2 * n) (hn : n < 7) : ∃ r', Reaches (step ccsidr) r r' ∧ r'.label = .skip ∧
      r'.w0 = clidr % 2 ^ 32 ∧ r'.w3 = r.w3 ∧ r'.w8 = 1 ∧ r'.w10 = 2 * n ∧
      r'.isw = r.isw ++ operands clidr ccsidr n := by
  have h3n : (r.w10 + r.w10 >>> 1) % 2 ^ 32 = 3 * n := by
    rw [h10, Nat.shiftRight_eq_div_pow]
    omega
  have htype : lsr r.w0 (3 * n) &&& 0x7 = getBits clidr (3 * n) 3 := by
    have e : getBits r.w0 (3 * n) 3 = getBits clidr (3 * n) 3 :=
      getBits_congr_mod (by rw [h0]; exact Nat.mod_mod _ _) (by omega : 3 * n + 3 ≤ 32)
    rw [← e, lsr, Nat.mod_eq_of_lt (by omega), Nat.shiftRight_eq_div_pow]
    exact Nat.and_two_pow_sub_one_eq_mod _ 3
  have hlt := getBits_lt clidr (3 * n) 3
  have hcond : signed 32 (getBits clidr (3 * n) 3) < signed 32 2 ↔ ¬ HasData clidr n := by
    rw [signed_of_lt (by omega), signed_of_lt (by norm_num), HasData]
    omega
  by_cases hd : HasData clidr n
  · -- There is a cache: its geometry is read, and its lines are visited.
    have hs : ¬ signed 32 (getBits clidr (3 * n) 3) < signed 32 2 := fun h => hcond.1 h hd
    generalize hg : ccsidr (2 * n) = g
    have hbits {o w : ℕ} (hw : o + w ≤ 32) : getBits (g % 2 ^ 32) o w = getBits g o w :=
      getBits_congr_mod (Nat.mod_mod _ _) hw
    have hline : (g % 2 ^ 32 &&& 7) + 4 = lineShift g := by
      rw [lineShift, ← hbits (by norm_num : 0 + 3 ≤ 32), getBits, pow_zero, Nat.div_one]
      exact congrArg (· + 4) (Nat.and_two_pow_sub_one_eq_mod _ 3)
    have hline_lt := getBits_lt g 0 3
    obtain ⟨hshift, hbound⟩ := way_shift (g := g) (Nat.lt_succ_self (getBits g 3 10))
    have h1 : step ccsidr r = some { r with
        label := .loop2
        w1 := g % 2 ^ 32
        w2 := lineShift g
        w4 := getBits g 3 10
        w5 := 32 - wayWidth g
        x9 := getBits g 3 10 * 2 ^ ((32 - wayWidth g) % 32)
        w12 := 2 ^ ((32 - wayWidth g) % 32) } := by
      rw [step, hl]
      simp only [loop1, h3n, htype]
      rw [if_neg hs, h10, hg]
      simp only [hbits (by norm_num : 3 + 10 ≤ 32), hline, clz_ways, lsl, h8, Nat.shiftLeft_eq, Nat.one_mul]
      have e2 : lineShift g % 2 ^ 32 = lineShift g := Nat.mod_eq_of_lt (by unfold lineShift; omega)
      have e12 : 2 ^ ((32 - wayWidth g) % 32) % 2 ^ 32 = 2 ^ ((32 - wayWidth g) % 32) :=
        Nat.mod_eq_of_lt (Nat.pow_lt_pow_right (by norm_num) (Nat.mod_lt _ (by norm_num)))
      rw [e2, Nat.mod_eq_of_lt (hshift.trans_lt hbound), e12]
    obtain ⟨w7, x9, w13, h2⟩ := loop2_run ccsidr (g := g) (r := { r with
        label := .loop2
        w1 := g % 2 ^ 32
        w2 := lineShift g
        w4 := getBits g 3 10
        w5 := 32 - wayWidth g
        x9 := getBits g 3 10 * 2 ^ ((32 - wayWidth g) % 32)
        w12 := 2 ^ ((32 - wayWidth g) % 32) }) rfl rfl rfl h8 rfl (hbits (by norm_num)) (hshift.trans_lt hbound)
      (Nat.mod_lt _ (by norm_num))
    refine ⟨_, reaches_head h1 h2, rfl, h0, rfl, h8, h10, ?_⟩
    rw [operands, if_pos hd, hg, lines, List.map_flatMap]
    refine congrArg (r.isw ++ ·) (List.flatMap_congr fun w hw => ?_)
    rw [List.map_map]
    refine List.map_congr_left fun s _ => ?_
    have hw' : w < ways g := List.mem_range.1 (List.mem_reverse.1 hw)
    rw [Function.comp_apply, operand, (way_shift hw').1, h10]
  · refine ⟨_, reaches_head (by rw [step, hl]) .refl, ?_⟩
    have hs := hcond.2 hd
    simp only [loop1, h3n, htype, if_pos hs]
    exact ⟨trivial, h0, trivial, h8, h10, by rw [operands, if_neg hd, List.append_nil]⟩

/-- The code computes twice the level of coherence. -/
lemma levels_eq (clidr : ℕ) : (clidr % 2 ^ 32 &&& 0x07000000) >>> 23 = 2 * levelOfCoherence clidr := by
  have e : getBits (clidr % 2 ^ 32) 24 3 = levelOfCoherence clidr :=
    getBits_congr_mod (Nat.mod_mod _ _) (by norm_num)
  rw [← e, Nat.shiftRight_and_distrib, getBits]
  generalize clidr % 2 ^ 32 = v
  have hv : v / 2 ^ 24 = v >>> 23 / 2 := by
    rw [Nat.shiftRight_eq_div_pow, Nat.div_div_eq_div_mul]
    norm_num
  have hm : (0x07000000 : ℕ) >>> 23 = 14 := rfl
  rw [hv, hm]
  generalize v >>> 23 = y
  have hdiv : (y &&& 14) / 2 = y / 2 % 2 ^ 3 := by
    rw [Nat.and_div_two]
    exact Nat.and_two_pow_sub_one_eq_mod _ 3
  have hmod : (y &&& 14) % 2 = 0 := by
    rw [← pow_one 2, Nat.and_mod_two_pow]
    exact Nat.and_zero _
  omega

/-- The levels from `n` on, to the end. -/
lemma levels_run {clidr : ℕ} (hl : r.label = .loop1) (h0 : r.w0 = clidr % 2 ^ 32) (h8 : r.w8 = 1)
    (h3 : r.w3 = 2 * levelOfCoherence clidr) (h10 : r.w10 = 2 * n) (hn : n < levelOfCoherence clidr) :
    ∃ r', Reaches (step ccsidr) r r' ∧ r'.label = .ret ∧ r'.iallu = true ∧
      r'.isw = r.isw ++ (List.range' n (levelOfCoherence clidr - n)).flatMap (operands clidr ccsidr) := by
  have hloc : levelOfCoherence clidr < 2 ^ 3 := getBits_lt clidr 24 3
  induction hd : levelOfCoherence clidr - n generalizing r n with
  | zero => omega
  | succ d ih =>
    obtain ⟨r₁, hr₁, hl₁, h0₁, h3₁, h8₁, h10₁, hops⟩ := loop1_run ccsidr hl h0 h8 h10 (by omega)
    have e10 : (r₁.w10 + 2) % 2 ^ 32 = 2 * (n + 1) := by omega
    have hcond : signed 32 r₁.w3 > signed 32 (2 * (n + 1)) ↔ n + 1 < levelOfCoherence clidr := by
      rw [h3₁, h3, signed_of_lt (by omega), signed_of_lt (by omega)]
      omega
    rw [List.range'_succ, List.flatMap_cons, ← List.append_assoc, ← hops]
    by_cases hlast : n + 1 < levelOfCoherence clidr
    · have hs : step ccsidr r₁ = some { r₁ with label := .loop1, w10 := 2 * (n + 1) } := by
        rw [step, hl₁]
        simp only [skip, e10]
        rw [if_pos (hcond.2 hlast)]
      obtain ⟨r', hr', hend⟩ := ih (r := { r₁ with label := .loop1, w10 := 2 * (n + 1) }) rfl h0₁ h8₁
        (h3₁.trans h3) rfl hlast (by omega)
      exact ⟨r', Relation.ReflTransGen.trans hr₁ (reaches_head hs hr'), hend⟩
    · have hs : step ccsidr r₁ = some { r₁ with label := .finished, w10 := 2 * (n + 1) } := by
        rw [step, hl₁]
        simp only [skip, e10]
        rw [if_neg fun h => hlast (hcond.1 h)]
      refine ⟨_, Relation.ReflTransGen.trans hr₁ (reaches_head hs (reaches_head rfl .refl)), rfl, rfl, ?_⟩
      have hd0 : d = 0 := by omega
      rw [hd0, List.range'_zero, List.flatMap_nil, List.append_nil]

/-- From the entry to `ret`. -/
lemma invalidateCacheAll_run (ccsidr : ℕ → ℕ) (r : Regs) (clidr : ℕ) :
    ∃ r', Reaches (step ccsidr) (invalidateCacheAll r clidr) r' ∧ r'.label = .ret ∧ r'.iallu = true ∧
      r'.isw = (List.range (levelOfCoherence clidr)).flatMap (operands clidr ccsidr) := by
  by_cases h0 : levelOfCoherence clidr = 0
  · have hentry : invalidateCacheAll r clidr = { r with
        label := .finished
        w0 := clidr % 2 ^ 32
        w3 := 0
        isw := []
        iallu := false } := by
      simp only [invalidateCacheAll, levels_eq, h0]
      rfl
    rw [hentry, h0, List.range_zero, List.flatMap_nil]
    exact ⟨_, reaches_head rfl .refl, rfl, rfl, rfl⟩
  · have hentry : invalidateCacheAll r clidr = { r with
        label := .loop1
        w0 := clidr % 2 ^ 32
        w3 := 2 * levelOfCoherence clidr
        w10 := 0
        w8 := 1
        isw := []
        iallu := false } := by
      simp only [invalidateCacheAll, levels_eq]
      rw [if_neg (by omega)]
    rw [hentry, List.range_eq_range']
    exact levels_run (n := 0) rfl rfl rfl rfl rfl (Nat.pos_of_ne_zero h0)

end Loops

/-! ## The lines -/

section Lines

variable {clidr n : ℕ} {ccsidr : ℕ → ℕ} {l : Line}

/-- The lines to invalidate at a level. -/
def dataLines (clidr : ℕ) (ccsidr : ℕ → ℕ) (n : ℕ) : List Line :=
  if HasData clidr n then lines (ccsidr (2 * n)) n else []

/-- The lines of a level that holds data. -/
lemma mem_dataLines : l ∈ dataLines clidr ccsidr n ↔ l.level = n ∧ HasData clidr n ∧
    l.way < ways (ccsidr (2 * n)) ∧ l.set < sets (ccsidr (2 * n)) := by
  by_cases hd : HasData clidr n
  · rw [dataLines, if_pos hd, mem_lines]
    exact and_congr_right fun _ => (and_iff_right hd).symm
  · rw [dataLines, if_neg hd]
    exact iff_of_false List.not_mem_nil fun h => hd h.2.1

/-- No line of a level that holds data is listed twice. -/
lemma nodup_dataLines (clidr : ℕ) (ccsidr : ℕ → ℕ) (n : ℕ) : (dataLines clidr ccsidr n).Nodup := by
  by_cases hd : HasData clidr n
  · rw [dataLines, if_pos hd]
    exact nodup_lines _ n
  · rw [dataLines, if_neg hd]
    exact List.nodup_nil

/-- Decoding gives back the lines that the operands were made from. -/
lemma operands_decode (hn : n < 8) (hfit : HasData clidr n → Fits (ccsidr (2 * n))) :
    (operands clidr ccsidr n).map (Line.of ccsidr) = dataLines clidr ccsidr n := by
  by_cases hd : HasData clidr n
  · rw [operands, dataLines, if_pos hd, if_pos hd, List.map_map]
    refine (List.map_congr_left fun l hl => ?_).trans (List.map_id _)
    obtain ⟨rfl, hw, hs⟩ := mem_lines.1 hl
    exact of_operand (hfit hd) hn hw hs
  · rw [operands, dataLines, if_neg hd, if_neg hd, List.map_nil]

end Lines

/-- `invalidate_cache_all` returns, and has invalidated the instruction cache and every line of the data and
unified caches up to the level of coherence, each by one `dc isw`, and no other line. -/
theorem invalidate_cache_all_lines (clidr : ℕ) (ccsidr : ℕ → ℕ)
    (hfit : ∀ n < levelOfCoherence clidr, HasData clidr n → Fits (ccsidr (2 * n))) (r : Regs) :
    ∃ r' ∈ eval (step ccsidr) (invalidateCacheAll r clidr), r'.iallu = true ∧
      (r'.isw.map (Line.of ccsidr)).Nodup ∧
      ∀ l, l ∈ r'.isw.map (Line.of ccsidr) ↔ l.level < levelOfCoherence clidr ∧ HasData clidr l.level ∧
        l.way < ways (ccsidr (2 * l.level)) ∧ l.set < sets (ccsidr (2 * l.level)) := by
  obtain ⟨r', hr, hret, hic, hisw⟩ := invalidateCacheAll_run ccsidr r clidr
  have hloc : levelOfCoherence clidr < 2 ^ 3 := getBits_lt clidr 24 3
  have hlines : r'.isw.map (Line.of ccsidr) =
      (List.range (levelOfCoherence clidr)).flatMap (dataLines clidr ccsidr) := by
    rw [hisw, List.map_flatMap]
    refine List.flatMap_congr fun n hn => ?_
    have hn := List.mem_range.1 hn
    exact operands_decode (by omega) (hfit n hn)
  refine ⟨r', mem_eval.2 ⟨hr, by rw [step, hret]⟩, hic, ?_, fun l => ?_⟩
  · rw [hlines]
    refine List.nodup_flatMap.2 ⟨fun n _ => nodup_dataLines clidr ccsidr n, ?_⟩
    refine List.nodup_range.imp fun {n n'} hne l hl hl' => hne ?_
    rw [← (mem_dataLines.1 hl).1, ← (mem_dataLines.1 hl').1]
  · rw [hlines, List.mem_flatMap]
    constructor
    · rintro ⟨n, hn, hl⟩
      obtain ⟨rfl, h⟩ := mem_dataLines.1 hl
      exact ⟨List.mem_range.1 hn, h⟩
    · rintro ⟨hn, h⟩
      exact ⟨l.level, List.mem_range.2 hn, mem_dataLines.2 ⟨rfl, h⟩⟩

/-- `ccsidr_el1` on a core with 32 KB of data cache in 4 ways and 512 KB of unified cache in 16 ways. -/
def exampleCcsidr (csselr : ℕ) : ℕ := if csselr = 0 then 0x700FE01A else 0x703FE07A

/-- Any registers. -/
def exampleRegs : Regs := ⟨.ret, 1, 2, 3, 4, 5, 6, 7, 8, 9, 10, 11, 12, [], false⟩

/-- Two levels of data cache, of four and of sixteen ways. -/
theorem invalidate_cache_all_lines_two_levels :
    ∃ r' ∈ eval (step exampleCcsidr) (invalidateCacheAll exampleRegs 0x0A200023), r'.iallu = true ∧
      ∀ l, l ∈ r'.isw.map (Line.of exampleCcsidr) ↔
        l.level = 0 ∧ l.way < 4 ∧ l.set < 128 ∨ l.level = 1 ∧ l.way < 16 ∧ l.set < 512 := by
  have hfit : ∀ n < levelOfCoherence 0x0A200023, HasData 0x0A200023 n → Fits (exampleCcsidr (2 * n)) := by decide
  obtain ⟨r', hr, hic, -, hmem⟩ := invalidate_cache_all_lines 0x0A200023 exampleCcsidr hfit exampleRegs
  refine ⟨r', hr, hic, fun l => (hmem l).trans ?_⟩
  have hloc : levelOfCoherence 0x0A200023 = 2 := by decide
  have hw0 : ways (exampleCcsidr (2 * 0)) = 4 := by decide
  have hs0 : sets (exampleCcsidr (2 * 0)) = 128 := by decide
  have hw1 : ways (exampleCcsidr (2 * 1)) = 16 := by decide
  have hs1 : sets (exampleCcsidr (2 * 1)) = 512 := by decide
  rw [hloc]
  constructor
  · rintro ⟨hl, -, hw, hs⟩
    obtain e | e : l.level = 0 ∨ l.level = 1 := by omega
    · rw [e, hw0] at hw
      rw [e, hs0] at hs
      exact .inl ⟨e, hw, hs⟩
    · rw [e, hw1] at hw
      rw [e, hs1] at hs
      exact .inr ⟨e, hw, hs⟩
  · rintro (⟨e, hw, hs⟩ | ⟨e, hw, hs⟩)
    · rw [e, hw0, hs0]
      exact ⟨by decide, by decide, hw, hs⟩
    · rw [e, hw1, hs1]
      exact ⟨by decide, by decide, hw, hs⟩

/-! ## Ranges of addresses -/

/-- `bic xd, xn, xm`. -/
def bic (v m : ℕ) : ℕ := v &&& (2 ^ 64 - 1 - m)

/-- The registers of `flush_dcache_area`, whether it has left the loop, and the operands of the `dc civac`
executed. -/
structure Flush where
  x0 : ℕ
  x1 : ℕ
  x2 : ℕ
  done : Bool
  civac : List ℕ

/-- The instructions before the loop. -/
def flushDcacheArea (ctr x0 x1 : ℕ) : Flush :=
  let x3 := getBits ctr 16 4
  let x2 := 0x4 <<< (x3 % 64) % 2 ^ 64
  let x1 := (x0 + x1) % 2 ^ 64
  let x3 := (x2 + 2 ^ 64 - 0x1) % 2 ^ 64
  let x0 := bic x0 x3
  ⟨x0, x1, x2, false, []⟩

/-- `flsuh`. -/
def flsuh (f : Flush) : Flush :=
  let civac := f.civac ++ [f.x0]
  let x0 := (f.x0 + f.x2) % 2 ^ 64
  if x0 < f.x1 then { f with x0, civac } else { f with x0, civac, done := true }

/-- One iteration; `none` after `ret`. -/
def flushStep (f : Flush) : Option Flush := if f.done then none else some (flsuh f)

/-- The length of a line of the data cache, from `DminLine` in `ctr_el0`. -/
def lineSize (ctr : ℕ) : ℕ := 2 ^ (getBits ctr 16 4 + 2)

section Flush

variable {f : Flush} {k n : ℕ}

/-- Clearing the low bits rounds down. -/
lemma bic_low {v k : ℕ} (hv : v < 2 ^ 64) (hk : k ≤ 64) : bic v (2 ^ k - 1) = v / 2 ^ k * 2 ^ k := by
  have hpos : 0 < 2 ^ k := Nat.two_pow_pos k
  have hle : 2 ^ k ≤ 2 ^ 64 := Nat.pow_le_pow_right (by norm_num) hk
  have hm : 2 ^ 64 - 1 - (2 ^ k - 1) = 2 ^ 64 - (2 ^ k - 1 + 1) := by omega
  refine Nat.eq_of_testBit_eq fun i => ?_
  rw [bic, hm, Nat.testBit_and, Nat.testBit_two_pow_sub_succ (by omega), Nat.testBit_two_pow_sub_one,
    Nat.testBit_mul_two_pow, Nat.testBit_div_two_pow]
  by_cases hi : i < k
  · simp [hi]
  · by_cases h64 : i < 64
    · simp [hi, h64, Nat.not_lt.1 hi]
    · have hz : v.testBit i = false :=
        Nat.testBit_lt_two_pow (hv.trans_le (Nat.pow_le_pow_right (by norm_num) (Nat.not_lt.1 h64)))
      simp [hz, Nat.not_lt.1 hi]

/-- The loop, from an address on that is in the last line but `n`. -/
lemma flsuh_run (hd : f.done = false) (hn : f.x1 ≤ f.x0 + (n + 1) * f.x2) (hlt : n = 0 ∨ f.x0 + n * f.x2 < f.x1)
    (h64 : f.x0 + (n + 1) * f.x2 < 2 ^ 64) : ∃ f', Reaches flushStep f f' ∧ f'.done = true ∧
      f'.civac = f.civac ++ (List.range (n + 1)).map fun i => f.x0 + i * f.x2 := by
  induction n generalizing f with
  | zero =>
    rw [Nat.zero_add, Nat.one_mul] at hn h64
    have hs : ¬ (f.x0 + f.x2) % 2 ^ 64 < f.x1 := by
      rw [Nat.mod_eq_of_lt h64]
      omega
    refine ⟨_, Relation.ReflTransGen.single (by rw [flushStep, hd]; rfl), ?_, ?_⟩
    · simp only [flsuh]
      rw [if_neg hs]
    · simp only [flsuh]
      rw [if_neg hs]
      simp
  | succ n ih =>
    have hmul : (n + 1 + 1) * f.x2 = (n + 1) * f.x2 + f.x2 := Nat.succ_mul _ _
    have hmul' : (n + 1) * f.x2 = n * f.x2 + f.x2 := Nat.succ_mul _ _
    have hlt' : f.x0 + (n + 1) * f.x2 < f.x1 := hlt.resolve_left (Nat.succ_ne_zero n)
    have e : (f.x0 + f.x2) % 2 ^ 64 = f.x0 + f.x2 := Nat.mod_eq_of_lt (by omega)
    have hs : flushStep f = some { f with x0 := f.x0 + f.x2, civac := f.civac ++ [f.x0] } := by
      rw [flushStep, hd, if_neg Bool.false_ne_true]
      simp only [flsuh]
      rw [e, if_pos (by omega), hd]
    obtain ⟨f', hf, hdone, hops⟩ := ih (f := { f with x0 := f.x0 + f.x2, civac := f.civac ++ [f.x0] }) hd
      (by show f.x1 ≤ f.x0 + f.x2 + (n + 1) * f.x2; omega)
      (.inr (by show f.x0 + f.x2 + n * f.x2 < f.x1; omega))
      (by show f.x0 + f.x2 + (n + 1) * f.x2 < 2 ^ 64; omega)
    refine ⟨f', Relation.ReflTransGen.head hs hf, hdone, ?_⟩
    rw [hops, List.range_succ_eq_map (n := n + 1), List.map_cons, List.map_map, List.append_assoc,
      List.singleton_append, Nat.zero_mul, Nat.add_zero]
    refine congrArg (fun l => f.civac ++ f.x0 :: l) (List.map_congr_left fun i _ => ?_)
    have hi : (i + 1) * f.x2 = i * f.x2 + f.x2 := Nat.succ_mul _ _
    show f.x0 + f.x2 + i * f.x2 = f.x0 + (i + 1) * f.x2
    omega

/-- The number of the last line of an area, counted from its first. -/
def lastLine (line start size : ℕ) : ℕ := (start + size - 1 - start / line * line) / line

section Area

variable {line : ℕ} (start size : ℕ)

/-- The area ends with its last line, -/
lemma le_lastLine (hpos : 0 < line) :
    start + size ≤ start / line * line + (lastLine line start size + 1) * line := by
  have hgt := Nat.lt_mul_div_succ (start + size - 1 - start / line * line) hpos
  rw [Nat.mul_comm line] at hgt
  change _ < (lastLine line start size + 1) * line at hgt
  omega

/-- and does not end before it. -/
lemma lastLine_lt (hpos : 0 < line) : lastLine line start size = 0 ∨
    start / line * line + lastLine line start size * line < start + size := by
  have hle : lastLine line start size * line ≤ start + size - 1 - start / line * line := Nat.div_mul_le_self _ line
  cases h : lastLine line start size with
  | zero => exact .inl rfl
  | succ n =>
    have hmul : (n + 1) * line = n * line + line := Nat.succ_mul n line
    rw [h] at hle
    exact .inr (by omega)

/-- The lines from the first to the last are those that meet the area, and the first. -/
lemma mem_area (hpos : 0 < line) (a : ℕ) :
    (∃ i < lastLine line start size + 1, start / line * line + i * line = a) ↔
      line ∣ a ∧ start < a + line ∧ (a < start + size ∨ a ≤ start) := by
  have hend := le_lastLine start size hpos
  have hlast := lastLine_lt start size hpos
  generalize lastLine line start size = n at hend hlast
  generalize hq : start / line = q at hend hlast
  have hstart : q * line ≤ start := hq ▸ Nat.div_mul_le_self start line
  have hnext : start < q * line + line := by
    rw [← hq, Nat.mul_comm]
    exact Nat.lt_mul_div_succ start hpos
  constructor
  · rintro ⟨i, hi, rfl⟩
    have hin : i * line ≤ n * line := Nat.mul_le_mul_right line (Nat.lt_succ_iff.1 hi)
    refine ⟨⟨q + i, by ring⟩, by omega, ?_⟩
    cases hlast with
    | inl h0 =>
      rw [h0] at hin
      exact .inr (by omega)
    | inr hlt => exact .inl (by omega)
  · rintro ⟨⟨c, rfl⟩, hlow, hhigh⟩
    have hqc : q ≤ c := by
      by_contra hlt
      have hc : (c + 1) * line ≤ q * line := Nat.mul_le_mul_right line (by omega)
      have e : (c + 1) * line = line * c + line := by ring
      omega
    obtain ⟨i, rfl⟩ := Nat.exists_eq_add_of_le hqc
    have e : line * (q + i) = q * line + i * line := by ring
    refine ⟨i, ?_, e.symm⟩
    by_contra hi
    have hni : (n + 1) * line ≤ i * line := Nat.mul_le_mul_right line (by omega)
    have hone : line ≤ (n + 1) * line := Nat.le_mul_of_pos_left line (Nat.succ_pos n)
    omega

end Area

/-- What the instructions before the loop compute. -/
lemma flushDcacheArea_eq {ctr start size : ℕ} (h : start + size + lineSize ctr < 2 ^ 64) :
    flushDcacheArea ctr start size =
      ⟨start / lineSize ctr * lineSize ctr, start + size, lineSize ctr, false, []⟩ := by
  have hpos : 0 < lineSize ctr := Nat.two_pow_pos _
  have hctr := getBits_lt ctr 16 4
  have hline : 0x4 <<< (getBits ctr 16 4 % 64) % 2 ^ 64 = lineSize ctr := by
    rw [Nat.mod_eq_of_lt (by omega : getBits ctr 16 4 < 64), Nat.shiftLeft_eq, lineSize, pow_add, Nat.mul_comm]
    refine Nat.mod_eq_of_lt ?_
    rw [lineSize, pow_add] at h
    omega
  have hmask : (lineSize ctr + 2 ^ 64 - 0x1) % 2 ^ 64 = 2 ^ (getBits ctr 16 4 + 2) - 1 := by
    rw [lineSize] at h hpos ⊢
    omega
  simp only [flushDcacheArea, hline, hmask]
  rw [bic_low (by omega) (by omega), Nat.mod_eq_of_lt (by omega)]
  rfl

end Flush

/-- `flush_dcache_area` returns, and has cleaned and invalidated each line that meets the area once, in any
case the line of its first address, and no other line. -/
theorem flush_dcache_area_lines (ctr start size : ℕ) (h : start + size + lineSize ctr < 2 ^ 64) :
    ∃ f ∈ eval flushStep (flushDcacheArea ctr start size), f.civac.Nodup ∧
      ∀ a, a ∈ f.civac ↔ lineSize ctr ∣ a ∧ start < a + lineSize ctr ∧ (a < start + size ∨ a ≤ start) := by
  have hpos : 0 < lineSize ctr := Nat.two_pow_pos _
  rw [flushDcacheArea_eq h]
  generalize lineSize ctr = line at hpos h ⊢
  have hend := le_lastLine start size hpos
  have hlast := lastLine_lt start size hpos
  have hstart : start / line * line ≤ start := Nat.div_mul_le_self start line
  have hmul : (lastLine line start size + 1) * line = lastLine line start size * line + line := Nat.succ_mul _ _
  have h64 : start / line * line + (lastLine line start size + 1) * line < 2 ^ 64 := by
    cases hlast with
    | inl h0 =>
      rw [h0] at hmul ⊢
      omega
    | inr hlt => omega
  obtain ⟨f, hf, hdone, hops⟩ := flsuh_run (n := lastLine line start size)
    (f := ⟨start / line * line, start + size, line, false, []⟩) rfl hend hlast h64
  refine ⟨f, mem_eval.2 ⟨hf, by rw [flushStep, hdone]; rfl⟩, ?_, fun a => ?_⟩
  · rw [hops, List.nil_append]
    refine List.nodup_range.map fun i j e => ?_
    exact Nat.eq_of_mul_eq_mul_right hpos (Nat.add_left_cancel e)
  · rw [hops, List.nil_append, List.mem_map, ← mem_area start size hpos a]
    simp only [List.mem_range]

/-- An area of 100 bytes that meets two lines of 64 bytes. -/
theorem flush_dcache_area_lines_two :
    ∃ f ∈ eval flushStep (flushDcacheArea 0x84448004 0x80010 100),
      ∀ a, a ∈ f.civac ↔ a = 0x80000 ∨ a = 0x80040 := by
  have hline : lineSize 0x84448004 = 64 := by decide
  obtain ⟨f, hf, -, hmem⟩ := flush_dcache_area_lines 0x84448004 0x80010 100 (by rw [hline]; norm_num)
  refine ⟨f, hf, fun a => (hmem a).trans ?_⟩
  rw [hline]
  omega

end KingdoKernel.Cache
