/-
This file is about what the packed codec carries.

The vector of a node may be decoded as it is, or after it was normalised and shifted. Either
way every number of it comes back from its ratio to the first one with an error that is much
less than what separates two codes, so that the decoder finds the codes that were written.
What a node becomes is therefore a matter of texts alone: of its head the name that the
registry has for the index, of three arguments the first twelve characters that are in the
charset, and of the rest nothing but the authority.
-/

import Mathlib.Data.List.Forall2
import Factum.Benchmark
import Factum.Scores

namespace Factum

namespace PackedCodec

/-! ### What is carried -/

/-- The characters of a text that fit into an argument. -/
def kept (chars : List Char) : List Char := (chars.take 12).takeWhile (· ∈ charset)

/-- The text that is read back: what is kept of a text, or a filler where nothing is. -/
def readBack (chars : List Char) : String :=
  if chars.isEmpty then "UNKNOWN" else String.ofList chars

/-- What a term becomes. -/
def carriedTerm (host : Host Binary32) (term : Term) : Except (Stop CodecError) Term :=
  ofTerm (reconstructTerm host (readBack (kept (termValueString host term).1.toList))
    (termValueString host term).2)

/-- What terms become, or the first error. -/
def carriedTerms (host : Host Binary32) : List Term → Except (Stop CodecError) (List Term)
  | [] => return []
  | term :: rest => do
    let term ← carriedTerm host term
    return term :: (← carriedTerms host rest)

/-- What a head becomes: the name of its morpheme, or of the first one. -/
def carriedHead (registry : MorphemeRegistry) (head : PredicateHead) :
    Except (Stop CodecError) String :=
  match registry.lookupId ⟨UInt32.ofNat (headToIndex registry head)⟩ with
  | some morpheme => return morpheme.name
  | none =>
    throw (.fail (.term (.decodeError
      ("morpheme index " ++ toString (headToIndex registry head) ++ " not in registry"))))

/-- What a predicate becomes. -/
def carried (host : Host Binary32) (registry : MorphemeRegistry) (pred : Predicate) :
    Except (Stop CodecError) Predicate := do
  let name ← carriedHead registry pred.head
  let args ← carriedTerms host (pred.args.take 3)
  return ⟨.name name, args, []⟩

/-! ### Characters -/

/-- What a character of an argument becomes: itself, or the sentinel. -/
def back (c : Char) : Char := if c ∈ charset then c else '\x00'

theorem sentinel_not_mem : '\x00' ∉ charset := by decide

theorem idxToChar_charToIdx (c : Char) :
    idxToChar (charToIdx c) = back c ∧ charToIdx c ≤ 66 := by
  unfold charToIdx
  by_cases isSentinel : c = '\x00'
  · subst isSentinel
    rw [if_pos rfl]
    exact ⟨by rw [back, if_neg sentinel_not_mem]; rfl, Nat.zero_le _⟩
  · rw [if_neg isSentinel]
    cases found : charset.findIdx? (· == c) with
    | none =>
      have absent : c ∉ charset := by
        intro member
        simpa using List.findIdx?_eq_none_iff.mp found c member
      exact ⟨by rw [back, if_neg absent]; rfl, Nat.zero_le _⟩
    | some i =>
      obtain ⟨short, isC, _⟩ := List.findIdx?_eq_some_iff_getElem.mp found
      have isC : charset[i] = c := eq_of_beq isC
      have few : charset.length = 66 := rfl
      have member : c ∈ charset := isC ▸ List.getElem_mem short
      constructor
      · show idxToChar (i + 1) = back c
        rw [back, if_pos member, idxToChar, if_neg (Nat.succ_ne_zero i), if_neg (by omega),
          Nat.add_sub_cancel, List.getD_eq_getElem?_getD, List.getElem?_eq_getElem short, isC]
        rfl
      · show i + 1 ≤ 66
        omega

/-! ### Codes -/

open Binary32

theorem value_lit {n : Nat} (few : n < 2 ^ 24) : (F32.lit n 0 : Binary32).value = n := by
  have whole : mkRat n (10 ^ 0) = n := Rat.mkRat_one n
  show rounded (mkRat n (10 ^ 0)) = n
  rw [whole, rounded_natCast few]

/-- A literal is close to the decimal that it spells. -/
theorem value_lit_near (m k : Nat) : |(F32.lit m k : Binary32).value - m / 10 ^ k| ≤
    (m / 10 ^ k) / 2 ^ 24 + 1 / 2 ^ 150 := by
  have isDecimal : mkRat m (10 ^ k) = (m : ℚ) / 10 ^ k := by
    rw [Rat.mkRat_eq_div]
    push_cast
    rfl
  have nonneg : (0 : ℚ) ≤ (m : ℚ) / 10 ^ k := by positivity
  have moved := abs_rounded_sub_le ((m : ℚ) / 10 ^ k)
  rw [abs_of_nonneg nonneg] at moved
  show |rounded (mkRat m (10 ^ k)) - _| ≤ _
  rw [isDecimal]
  exact moved

theorem value_ofNat {n : Nat} (few : n < 2 ^ 24) : (ofNat n).value = n := rounded_natCast few

/-- A code is found from a number that is close to it, divided by the largest code. -/
theorem toIndex_mul_eq {r scale : Binary32} {n m : Nat} (isScale : scale.value = m)
    (positive : 0 < m) (few : n ≤ 10000) (least : m ≤ 10000)
    (near : |r.value - (ofNat n / scale).value| ≤ max 1 (ofNat n / scale).value / 23000) :
    (r * scale).toIndex = n := by
  obtain ⟨q, isQ⟩ : ∃ q, (ofNat n / scale).value = q := ⟨_, rfl⟩
  have positive' : (0 : ℚ) < m := Nat.cast_pos.mpr positive
  have least' : (m : ℚ) ≤ 10000 := by exact_mod_cast least
  have few' : (n : ℚ) ≤ 10000 := by exact_mod_cast few
  have nonneg : (0 : ℚ) ≤ n := Nat.cast_nonneg n
  have quotient : (0 : ℚ) ≤ n / m := div_nonneg nonneg positive'.le
  have isNear : |q * m - n| ≤ 1 / 1000 := by
    have moved := abs_rounded_sub_le ((n : ℚ) / m)
    rw [← isScale, ← value_ofNat (by omega : n < 2 ^ 24), ← value_div, isQ, isScale,
      value_ofNat (by omega : n < 2 ^ 24), abs_of_nonneg quotient] at moved
    have isProduct : q * m - n = (q - n / m) * m := by
      rw [sub_mul, div_mul_cancel₀ _ positive'.ne']
    rw [isProduct, abs_mul, abs_of_pos positive']
    calc |q - n / m| * m ≤ ((n : ℚ) / m / 2 ^ 24 + 1 / 2 ^ 150) * m :=
          mul_le_mul_of_nonneg_right moved positive'.le
      _ = n / 2 ^ 24 + m / 2 ^ 150 := by
          field_simp
      _ ≤ 1 / 1000 := by linarith
  rw [isQ] at near
  have size : max 1 q * m ≤ 10001 := by
    rcases max_cases 1 q with ⟨isMax, _⟩ | ⟨isMax, _⟩ <;> rw [isMax]
    · linarith
    · linarith [(abs_le.mp isNear).2]
  have isNear' : |r.value * m - n| ≤ 11 / 25 := by
    have isSum : r.value * m - n = (r.value - q) * m + (q * m - n) := by ring
    have isScaled : |(r.value - q) * m| ≤ max 1 q * m / 23000 := by
      rw [abs_mul, abs_of_pos positive', mul_div_right_comm]
      exact mul_le_mul_of_nonneg_right near positive'.le
    rw [isSum]
    refine (abs_add_le _ _).trans ?_
    linarith
  have last := abs_rounded_sub_le (r.value * m)
  have size' : |r.value * m| ≤ 10001 := by
    rw [abs_le] at isNear' ⊢
    constructor <;> linarith [isNear'.1, isNear'.2]
  refine toIndex_eq ?_ (by omega)
  rw [value_mul, isScale]
  rw [abs_le] at isNear' last
  rw [abs_lt]
  constructor <;> linarith [isNear'.1, isNear'.2, last.1, last.2]

theorem value_zero : (F32.lit 0 0 : Binary32).value = 0 := by
  simpa using value_lit (n := 0) (by decide)

theorem value_one : (F32.lit 1 0 : Binary32).value = 1 := by
  simpa using value_lit (n := 1) (by decide)

/-- A number of the unit interval is no further from one that was restricted to it. -/
theorem abs_clamp_sub_le {x : ℚ} (nonneg : 0 ≤ x) (below : x ≤ 1) (r : Binary32) :
    |(r.clamp (F32.lit 0 0) (F32.lit 1 0)).value - x| ≤ |r.value - x| := by
  unfold clamp
  split_ifs with isBelow isAbove
  · rw [value_zero] at isBelow ⊢
    rw [abs_of_nonpos (by linarith), abs_of_nonpos (by linarith)]
    linarith
  · rw [value_one] at isAbove ⊢
    rw [abs_of_nonneg (by linarith), abs_of_nonneg (by linarith)]
    linarith
  · exact le_refl _

/-! ### Texts -/

/-- A number of a vector is close to the one that was written. -/
def Near (r x : Binary32) : Prop := |r.value - x.value| ≤ max 1 x.value / 23000

theorem value_maxEncoded : maxEncoded.value = (4488 : Nat) := value_ofNat (by decide)

theorem value_maxMorphemes : maxMorphemes.value = (300 : Nat) := value_lit (by decide)

theorem value_maxPacked : maxPacked.value = (5323 : Nat) := value_lit (by decide)

theorem encode2Chars_unit (c1 c2 : Char) :
    0 ≤ (encode2Chars c1 c2).value ∧ (encode2Chars c1 c2).value ≤ 1 := by
  have few1 := (idxToChar_charToIdx c1).2
  have few2 := (idxToChar_charToIdx c2).2
  have few : charToIdx c1 * base + charToIdx c2 ≤ 4488 := by
    unfold base
    omega
  rw [encode2Chars, value_div, value_ofNat (by omega), value_maxEncoded]
  have nonneg : (0 : ℚ) ≤ (charToIdx c1 * base + charToIdx c2 : ℕ) / (4488 : ℕ) := by positivity
  refine ⟨rounded_nonneg nonneg, rounded_le_one nonneg ?_⟩
  rw [div_le_one (by norm_num)]
  exact_mod_cast few

/-- Two characters come back from a number that is close to theirs. -/
theorem decode2Chars_of_near {r : Binary32} {c1 c2 : Char} (near : Near r (encode2Chars c1 c2)) :
    decode2Chars r = (back c1, back c2) := by
  obtain ⟨isChar1, few1⟩ := idxToChar_charToIdx c1
  obtain ⟨isChar2, few2⟩ := idxToChar_charToIdx c2
  obtain ⟨nonneg, small⟩ := encode2Chars_unit c1 c2
  have clamped : Near (r.clamp (F32.lit 0 0) (F32.lit 1 0)) (encode2Chars c1 c2) :=
    (abs_clamp_sub_le nonneg small r).trans near
  have isValue := toIndex_mul_eq value_maxEncoded (by decide)
    (by unfold base; omega : charToIdx c1 * base + charToIdx c2 ≤ 10000) (by decide) clamped
  have first : (charToIdx c1 * base + charToIdx c2) / base % base = charToIdx c1 := by
    unfold base
    omega
  have second : (charToIdx c1 * base + charToIdx c2) % base = charToIdx c2 := by
    unfold base
    omega
  rw [decode2Chars, isValue, first, second, isChar1, isChar2]

/-- A text comes back as far as it is kept, two characters to a number. -/
theorem decodeChars_of_near (len : Nat) : ∀ {chars : List Char} {rs : List Binary32},
    List.Forall₂ Near rs ((List.range len).map fun i =>
      encode2Chars (chars.getD (2 * i) '\x00') (chars.getD (2 * i + 1) '\x00')) →
    decodeChars rs = (chars.take (2 * len)).takeWhile (· ∈ charset) := by
  induction len with
  | zero =>
    intro chars rs near
    rw [List.range_zero, List.map_nil, List.forall₂_nil_right_iff] at near
    rw [near, mul_zero, List.take_zero]
    rfl
  | succ len inductionHypothesis =>
    intro chars rs near
    rw [List.range_succ_eq_map, List.map_cons, List.map_map, List.forall₂_cons_right_iff] at near
    obtain ⟨r, rest, isNear, areNear, rfl⟩ := near
    have sentinel : back '\x00' = '\x00' := rfl
    rw [decodeChars, decode2Chars_of_near isNear]
    cases chars with
    | nil => simp [sentinel]
    | cons first chars =>
      have isFirst : (first :: chars).getD (2 * 0) '\x00' = first := rfl
      rw [isFirst]
      by_cases member : first ∈ charset
      · have notSentinel : first ≠ '\x00' := fun same => sentinel_not_mem (same ▸ member)
        rw [back, if_pos member]
        cases chars with
        | nil => simp [sentinel, notSentinel, member, Nat.mul_add]
        | cons second chars =>
          have rest' := @inductionHypothesis chars rest areNear
          have isSecond : (first :: second :: chars).getD (2 * 0 + 1) '\x00' = second := rfl
          rw [isSecond]
          by_cases member' : second ∈ charset
          · have notSentinel' : second ≠ '\x00' := fun same => sentinel_not_mem (same ▸ member')
            simp [back, member, member', notSentinel, notSentinel', rest', Nat.mul_add]
          · simp [back, member, member', notSentinel, Nat.mul_add]
      · simp [back, member, Nat.mul_add]

/-! ### Vectors -/

/-- A vector whose ratios to its scale reference are close to the numbers of another. -/
structure Recovers (scaleRef : Binary32) (data found : List Binary32) : Prop where
  isScale : found[offScaleRef]? = some scaleRef
  notBlank : isBlank scaleRef = false
  near : ∀ {i : Nat} {x : Binary32}, data[i]? = some x →
    ∃ y, found[i]? = some y ∧ Near (y / scaleRef) x

section Reading

variable {scaleRef : Binary32} {data found : List Binary32}

theorem entry_ok {i : Nat} {x : Binary32} (isEntry : data[i]? = some x) :
    entry data i = .ok x := by
  rw [entry, isEntry]

theorem Recovers.recoverValue (recovers : Recovers scaleRef data found) {i : Nat} {x : Binary32}
    (isEntry : data[i]? = some x) : ∃ r, PackedCodec.recoverValue found i = .ok r ∧ Near r x := by
  obtain ⟨y, isY, near⟩ := recovers.near isEntry
  refine ⟨y / scaleRef, ?_, near⟩
  rw [PackedCodec.recoverValue, entry_ok recovers.isScale, entry_ok isY]
  show (if isBlank scaleRef = true then _ else _) = _
  rw [recovers.notBlank]
  rfl

theorem Recovers.recoverSlice (recovers : Recovers scaleRef data found) {more : List Binary32}
    (xs : List Binary32) : ∀ {offset : Nat}, data.drop offset = xs ++ more →
    ∃ rs, PackedCodec.recoverSlice found scaleRef offset xs.length = .ok rs ∧
      List.Forall₂ Near rs xs := by
  induction xs with
  | nil => exact fun _ => ⟨[], rfl, .nil⟩
  | cons x rest inductionHypothesis =>
    intro offset isSlice
    have isEntry : data[offset]? = some x := by
      rw [← List.head?_drop, isSlice]
      rfl
    have isRest : data.drop (offset + 1) = rest ++ more := by
      rw [← List.tail_drop, isSlice]
      rfl
    obtain ⟨y, isY, near⟩ := recovers.near isEntry
    obtain ⟨rs, isSlice', areNear⟩ := inductionHypothesis isRest
    refine ⟨y / scaleRef :: rs, ?_, .cons near areNear⟩
    rw [List.length_cons, PackedCodec.recoverSlice, entry_ok isY, isSlice']
    rfl

/-- A text of a vector comes back as far as it is kept. -/
theorem Recovers.decodeStringSlice (recovers : Recovers scaleRef data found) {offset : Nat}
    {text : String} {more : List Binary32}
    (isSlice : data.drop offset = encodeString text argFloats ++ more) :
    PackedCodec.decodeStringSlice found offset argFloats =
      .ok (String.ofList (kept text.toList)) := by
  obtain ⟨rs, isSlice', areNear⟩ := recovers.recoverSlice _ isSlice
  have isLength : (encodeString text argFloats).length = argFloats := by
    rw [encodeString, List.length_map, List.length_range]
  rw [isLength] at isSlice'
  rw [PackedCodec.decodeStringSlice, entry_ok recovers.isScale]
  show (if isBlank scaleRef = true then _ else _) = _
  rw [recovers.notBlank, isSlice']
  exact congrArg (fun chars => Except.ok (String.ofList chars)) (decodeChars_of_near 6 areNear)

end Reading

/-! ### The operation of the benchmark -/

theorem lt_eq (a b : Binary32) : F32.lt a b = decide (a.value < b.value) := rfl

theorem value_abs (a : Binary32) : (F32.abs a).value = rounded |a.value| := rfl

theorem tiny_lt : (F32.lit 1 10 : Binary32).value < 1 / 100 := by
  have near := (abs_le.mp (value_lit_near 1 10)).2
  push_cast at near
  linarith

/-- A number that is not small is no blank scale reference. -/
theorem isBlank_eq_false {scaleRef : Binary32} (large : 1 / 100 ≤ scaleRef.value) :
    isBlank scaleRef = false := by
  have nonneg : 0 ≤ scaleRef.value := by linarith
  rw [isBlank, lt_eq, value_abs, abs_of_nonneg nonneg, scaleRef.isRounded]
  exact decide_eq_false (not_lt.mpr (tiny_lt.le.trans large))

/-- A vector is found from itself. -/
theorem recovers_self {data : List Binary32} {one : Binary32} (isOne : one.value = 1)
    (isScale : data[offScaleRef]? = some one) : Recovers one data data := by
  refine ⟨isScale, isBlank_eq_false ?_, fun {i x} isEntry => ⟨x, isEntry, ?_⟩⟩
  · rw [isOne]
    norm_num
  · rw [Near, value_div, isOne, div_one, x.isRounded, sub_self, abs_zero]
    have := le_max_left 1 x.value
    positivity

/-- A vector that is normalised and shifted. -/
def operated (data : List Binary32) : List Binary32 :=
  (data.map (· / (ThoughtVector.fromVec data).l2Norm)).map (· + F32.lit 1 6)

theorem value_foldl (xs : List Binary32) : ∀ sum : Binary32,
    ((xs.map fun v => v * v).foldl (· + ·) sum).value =
      (xs.map value).foldl (fun sum x => rounded (sum + rounded (x * x))) sum.value := by
  induction xs with
  | nil => exact fun _ => rfl
  | cons x rest inductionHypothesis => exact fun sum => inductionHypothesis (sum + x * x)

/-- The norm of a vector that starts with one, and whose other squares are few. -/
theorem l2Norm_bounds {one : Binary32} {rest : List Binary32} (isOne : one.value = 1)
    (short : rest.length ≤ 24)
    (few : ((rest.map value).map fun x => x * x).sum ≤ 1140) :
    1 / 8 ≤ (ThoughtVector.fromVec (one :: rest)).l2Norm.value ∧
      (ThoughtVector.fromVec (one :: rest)).l2Norm.value ≤ 37 := by
  obtain ⟨sum, isSum⟩ : ∃ sum, (((one :: rest).map fun v => v * v).foldl (· + ·)
    (F32.lit 0 0 : Binary32)).value = sum := ⟨_, rfl⟩
  have isNorm : (ThoughtVector.fromVec (one :: rest)).l2Norm.value = rounded (sqrt sum) := by
    rw [← isSum]
    rfl
  have length : (rest.map value).length = rest.length := List.length_map _
  have short' : (rest.length : ℚ) ≤ 24 := by exact_mod_cast short
  have isOne' : rounded 1 = 1 := by simpa using rounded_natCast (n := 1) (by decide)
  have isFirst : rounded ((F32.lit 0 0 : Binary32).value + rounded (1 * 1)) = 1 := by
    rw [value_zero, mul_one, isOne', zero_add, isOne']
  have bounds := foldl_squares_bounds (rest.map value) 1 zero_le_one (by
    rw [length]
    linarith)
  rw [value_foldl, List.map_cons, isOne, List.foldl_cons, isFirst] at isSum
  rw [isSum, length] at bounds
  have least := bounds.2 1 zero_le_one le_rfl le_rfl (by linarith)
  have most := bounds.1
  have positive : 0 < sum := by linarith
  obtain ⟨low, high⟩ := sqrt_sq_bounds positive
  have nonneg := sqrt_nonneg sum
  have low' : 1 / 4 ≤ sqrt sum := by nlinarith
  have high' : sqrt sum ≤ 36 := by nlinarith
  have last := abs_rounded_sub_le (sqrt sum)
  rw [abs_of_nonneg nonneg, abs_le] at last
  rw [isNorm]
  constructor <;> linarith [last.1, last.2]

/-- The operation of the benchmark leaves every number to be found. -/
theorem recovers_operated {one : Binary32} {rest : List Binary32} (isOne : one.value = 1)
    (short : rest.length ≤ 24) (nonneg : ∀ x ∈ rest, 0 ≤ x.value)
    (few : ((rest.map value).map fun x => x * x).sum ≤ 1140) :
    ∃ scaleRef, Recovers scaleRef (one :: rest) (operated (one :: rest)) := by
  obtain ⟨norm, isNorm⟩ : ∃ norm, (ThoughtVector.fromVec (one :: rest)).l2Norm = norm := ⟨_, rfl⟩
  obtain ⟨low, high⟩ := l2Norm_bounds isOne short few
  rw [isNorm] at low high
  have positive : 0 < norm.value := by linarith
  have shift := abs_le.mp (value_lit_near 1 6)
  push_cast at shift
  have least : 1 / 2 ^ 21 ≤ (F32.lit 1 6 : Binary32).value := by linarith [shift.1]
  have most : (F32.lit 1 6 : Binary32).value ≤ 11 / 10 ^ 7 := by linarith [shift.2]
  refine ⟨one / norm + F32.lit 1 6, ?_, ?_, fun {i x} isEntry => ⟨x / norm + F32.lit 1 6, ?_, ?_⟩⟩
  · rw [operated, isNorm]
    rfl
  · have shifted := abs_shifted_sub_le (x := 1) zero_le_one positive least
    have isValue : (one / norm + F32.lit 1 6).value =
        rounded (rounded (1 / norm.value) + (F32.lit 1 6 : Binary32).value) := by
      rw [value_add, value_div, isOne]
    have inverse : 1 / 37 ≤ 1 / norm.value := one_div_le_one_div_of_le positive high
    refine isBlank_eq_false ?_
    rw [isValue]
    linarith [(abs_le.mp shifted).1]
  · rw [operated, isNorm, List.getElem?_map, List.getElem?_map, isEntry]
    rfl
  · have isNonneg : 0 ≤ x.value := by
      rcases List.mem_cons.mp (List.mem_of_getElem? isEntry) with rfl | member
      · rw [isOne]
        exact zero_le_one
      · exact nonneg x member
    have recovered := (abs_recovered_sub_le isNonneg positive least).1
    rw [Near, value_div, value_add, value_div, value_add, value_div, isOne]
    refine recovered.trans ?_
    have scaled : 1 / 2 ^ 20 + (F32.lit 1 6 : Binary32).value * norm.value ≤ 42 / 10 ^ 6 := by
      nlinarith
    have := le_max_left 1 x.value
    nlinarith

/-! ### The layout of a vector -/

theorem writeFrom_append (tail : List Binary32) (new : List Binary32) :
    ∀ {front old : List Binary32}, old.length = new.length →
      writeFrom (front ++ (old ++ tail)) front.length new = front ++ (new ++ tail) := by
  induction new with
  | nil =>
    intro front old isLength
    rw [List.eq_nil_of_length_eq_zero isLength]
    rfl
  | cons value rest inductionHypothesis =>
    intro front old isLength
    cases old with
    | nil => cases isLength
    | cons first old =>
      have next := @inductionHypothesis (front ++ [value]) old (Nat.succ.inj isLength)
      rw [List.length_append, List.length_singleton, List.append_assoc, List.append_assoc] at next
      rw [writeFrom, List.set_append_right _ _ (le_refl _), Nat.sub_self]
      exact next

section Layout

variable (host : Host Binary32) (args : List Term)

/-- The code of the kind of an argument, or zero. -/
def codeAt (i : Nat) : UInt8 :=
  match args[i]? with
  | some arg => (termValueString host arg).2
  | none => 0

/-- The numbers of the text of an argument, or zeros. -/
def numbersAt (i : Nat) : List Binary32 :=
  match args[i]? with
  | some arg => encodeString (termValueString host arg).1 argFloats
  | none => List.replicate argFloats (F32.lit 0 0)

theorem length_encodeString (s : String) (len : Nat) : (encodeString s len).length = len := by
  rw [encodeString, List.length_map, List.length_range]

theorem length_numbersAt (i : Nat) : (numbersAt host args i).length = argFloats := by
  unfold numbersAt
  cases args[i]? with
  | some arg => exact length_encodeString _ _
  | none => exact List.length_replicate

/-- An argument is written over zeros. -/
theorem encodeArg_eq (codes : List UInt8) {front tail : List Binary32} {i : Nat}
    (isOffset : offArg i = front.length) :
    encodeArg host args (codes, front ++ (List.replicate argFloats (F32.lit 0 0) ++ tail)) i =
      (codes ++ [codeAt host args i], front ++ (numbersAt host args i ++ tail)) := by
  unfold encodeArg codeAt numbersAt
  cases args[i]? with
  | none => rfl
  | some arg =>
    refine Prod.ext rfl ?_
    show writeFrom _ (offArg i) _ = _
    rw [isOffset]
    refine writeFrom_append tail _ ?_
    rw [length_encodeString, List.length_replicate]

/-- The code of the first named argument. -/
def namedNumber (named : List (String × Term)) : Binary32 :=
  match named.head? with
  | some (_, val) =>
    F32.lit 1 0 + Binary32.ofNat (termValueString host val).2.toNat / F32.lit 100 0
  | none => F32.lit 0 0

/-- The vector of a node. -/
theorem data_encodeNode (registry : MorphemeRegistry) (node : Node Binary32) :
    (encodeNode host registry node).data =
      F32.lit 1 0 :: Binary32.ofNat (headToIndex registry node.predicate.head) / maxMorphemes ::
        packArgs (min node.predicate.args.length 3) [codeAt host node.predicate.args 0,
          codeAt host node.predicate.args 1, codeAt host node.predicate.args 2] ::
        (numbersAt host node.predicate.args 0 ++ (numbersAt host node.predicate.args 1 ++
          (numbersAt host node.predicate.args 2 ++ [namedNumber host node.predicate.named,
            node.confidence.value, node.authority.value]))) := by
  obtain ⟨head, isHead⟩ : ∃ head, Binary32.ofNat (headToIndex registry node.predicate.head) /
    maxMorphemes = head := ⟨_, rfl⟩
  obtain ⟨args, isArgs⟩ : ∃ args, node.predicate.args = args := ⟨_, rfl⟩
  have blank : ((List.replicate packedCodecDim (F32.lit 0 0)).set offScaleRef (F32.lit 1 0)).set
      offHeadIndex head = [F32.lit 1 0, head, F32.lit 0 0] ++
        (List.replicate argFloats (F32.lit 0 0) ++ (List.replicate argFloats (F32.lit 0 0) ++
          (List.replicate argFloats (F32.lit 0 0) ++
            [F32.lit 0 0, F32.lit 0 0, F32.lit 0 0]))) := rfl
  have written : [0, 1, 2].foldl (encodeArg host args)
      ([], ((List.replicate packedCodecDim (F32.lit 0 0)).set offScaleRef (F32.lit 1 0)).set
        offHeadIndex head) =
      ([codeAt host args 0, codeAt host args 1, codeAt host args 2],
        [F32.lit 1 0, head, F32.lit 0 0] ++ (numbersAt host args 0 ++ (numbersAt host args 1 ++
          (numbersAt host args 2 ++ [F32.lit 0 0, F32.lit 0 0, F32.lit 0 0])))) := by
    have length0 := length_numbersAt host args 0
    have length1 := length_numbersAt host args 1
    rw [blank, List.foldl_cons, encodeArg_eq host args [] rfl, List.foldl_cons,
      ← List.append_assoc, encodeArg_eq host args _ (by simp [length0, offArg, argFloats]),
      List.foldl_cons, ← List.append_assoc,
      encodeArg_eq host args _ (by simp [length0, length1, offArg, argFloats])]
    simp
  have unfolded : (encodeNode host registry node).data =
      (((([F32.lit 1 0, head, F32.lit 0 0] ++ (numbersAt host args 0 ++ (numbersAt host args 1 ++
        (numbersAt host args 2 ++ [F32.lit 0 0, F32.lit 0 0, F32.lit 0 0])))).set offPackedArgs
          (packArgs (min args.length 3)
            [codeAt host args 0, codeAt host args 1, codeAt host args 2])).set offNamed
              (namedNumber host node.predicate.named)).set offConfidence
                node.confidence.value).set offAuthority node.authority.value := by
    show encodePredicate host registry node
      ((List.replicate packedCodecDim (F32.lit 0 0)).set offScaleRef (F32.lit 1 0)) = _
    rw [encodePredicate, isHead, isArgs, written]
    rfl
  rw [unfolded, isHead, isArgs]
  simp [length_numbersAt, argFloats, offPackedArgs, offNamed, offConfidence, offAuthority]

end Layout

/-! ### The numbers of a vector -/

theorem typeCode_bounds (host : Host Binary32) (term : Term) :
    0 < (termValueString host term).2 ∧ (termValueString host term).2.toNat ≤ 10 := by
  cases term with
  | lit literal => cases literal <;> simp [termValueString]
  | _ => simp [termValueString]

theorem codeAt_le (host : Host Binary32) (args : List Term) (i : Nat) :
    (codeAt host args i).toNat ≤ 10 := by
  unfold codeAt
  cases args[i]? with
  | some arg => exact (typeCode_bounds host arg).2
  | none => exact Nat.zero_le 10

/-- A number that takes part in no scale: between zero and a little more than one. -/
def Small (x : Binary32) : Prop := 0 ≤ x.value ∧ x.value ≤ 9 / 8

theorem small_of_unit {x : Binary32} (nonneg : 0 ≤ x.value) (below : x.value ≤ 1) : Small x :=
  ⟨nonneg, below.trans (by norm_num)⟩

theorem small_zero : Small (F32.lit 0 0) := by
  refine small_of_unit ?_ ?_ <;> rw [value_zero]
  exact zero_le_one

theorem small_numbersAt (host : Host Binary32) (args : List Term) (i : Nat) :
    ∀ x ∈ numbersAt host args i, Small x := by
  unfold numbersAt
  intro x member
  cases found : args[i]? with
  | some arg =>
    rw [found] at member
    obtain ⟨j, _, rfl⟩ := List.mem_map.mp member
    exact small_of_unit (encode2Chars_unit _ _).1 (encode2Chars_unit _ _).2
  | none =>
    rw [found] at member
    rw [List.eq_of_mem_replicate member]
    exact small_zero

theorem packed_le {argCount : Nat} {t1 t2 t3 : UInt8} (few : argCount ≤ 3) (few1 : t1.toNat ≤ 10)
    (few2 : t2.toNat ≤ 10) (few3 : t3.toNat ≤ 10) :
    argCount * 1331 + t1.toNat * 121 + t2.toNat * 11 + t3.toNat ≤ 5323 := by omega

theorem small_packArgs {argCount : Nat} {t1 t2 t3 : UInt8} (few : argCount ≤ 3)
    (few1 : t1.toNat ≤ 10) (few2 : t2.toNat ≤ 10) (few3 : t3.toNat ≤ 10) :
    Small (packArgs argCount [t1, t2, t3]) := by
  have packed := packed_le few few1 few2 few3
  obtain ⟨n, isN⟩ : ∃ n, argCount * 1331 + t1.toNat * 121 + t2.toNat * 11 + t3.toNat = n :=
    ⟨_, rfl⟩
  have unfolded : packArgs argCount [t1, t2, t3] = ofNat n / maxPacked := by
    rw [← isN]
    rfl
  rw [isN] at packed
  have nonneg : (0 : ℚ) ≤ n / (5323 : ℕ) := by positivity
  have below : (n : ℚ) / (5323 : ℕ) ≤ 1 := by
    rw [div_le_one (by norm_num)]
    exact_mod_cast packed
  rw [unfolded]
  refine small_of_unit ?_ ?_ <;> rw [value_div, value_ofNat (by omega), value_maxPacked]
  · exact rounded_nonneg nonneg
  · exact rounded_le_one nonneg below

theorem small_namedNumber (host : Host Binary32) (named : List (String × Term)) :
    Small (namedNumber host named) := by
  unfold namedNumber
  cases named with
  | nil => exact small_zero
  | cons first rest =>
    have code := (typeCode_bounds host first.2).2
    show Small (F32.lit 1 0 + ofNat (termValueString host first.2).2.toNat / F32.lit 100 0)
    have isHundred : (F32.lit 100 0 : Binary32).value = (100 : Nat) := value_lit (by decide)
    have code' : ((termValueString host first.2).2.toNat : ℚ) ≤ 10 := by exact_mod_cast code
    have nonneg : (0 : ℚ) ≤ (termValueString host first.2).2.toNat / (100 : ℕ) := by positivity
    have inner := abs_rounded_sub_le
      (((termValueString host first.2).2.toNat : ℚ) / (100 : ℕ))
    have inner' := rounded_nonneg nonneg
    rw [abs_of_nonneg nonneg, abs_le] at inner
    have outer := abs_rounded_sub_le
      (1 + rounded (((termValueString host first.2).2.toNat : ℚ) / (100 : ℕ)))
    have positive : 0 ≤ 1 + rounded (((termValueString host first.2).2.toNat : ℚ) / (100 : ℕ)) :=
      add_nonneg zero_le_one inner'
    rw [abs_of_nonneg positive, abs_le] at outer
    unfold Small
    rw [value_add, value_div, value_one, isHundred, value_ofNat (by omega)]
    push_cast at *
    constructor
    · linarith [outer.1]
    · linarith [outer.2, inner.2]

theorem unit_of_inUnit {x : Binary32} (inUnit : F32.inUnit x = true) :
    0 ≤ x.value ∧ x.value ≤ 1 := by
  obtain ⟨nonneg, below⟩ := Bool.and_eq_true_iff.mp inUnit
  have nonneg : (F32.lit 0 0 : Binary32).value ≤ x.value := of_decide_eq_true nonneg
  have below : x.value ≤ (F32.lit 1 0 : Binary32).value := of_decide_eq_true below
  rw [value_zero] at nonneg
  rw [value_one] at below
  exact ⟨nonneg, below⟩

theorem sum_squares_le {xs : List Binary32} (small : ∀ x ∈ xs, Small x) :
    ((xs.map value).map fun x => x * x).sum ≤ xs.length * (81 / 64) := by
  induction xs with
  | nil => simp
  | cons x rest inductionHypothesis =>
    have next := inductionHypothesis fun y member => small y (List.mem_cons_of_mem x member)
    obtain ⟨nonneg, below⟩ := small x List.mem_cons_self
    have square : x.value * x.value ≤ 81 / 64 := by nlinarith
    rw [List.map_cons, List.map_cons, List.sum_cons, List.length_cons]
    push_cast
    linarith

/-- The number of a head. -/
theorem headNumber_bounds {index : Nat} (few : index ≤ 10000) :
    0 ≤ (ofNat index / maxMorphemes).value ∧
      (ofNat index / maxMorphemes).value ≤ 3334 / 100 := by
  have nonneg : (0 : ℚ) ≤ index / (300 : ℕ) := by positivity
  have few' : (index : ℚ) ≤ 10000 := by exact_mod_cast few
  have moved := abs_rounded_sub_le ((index : ℚ) / (300 : ℕ))
  rw [abs_of_nonneg nonneg, abs_le] at moved
  rw [value_div, value_ofNat (by omega), value_maxMorphemes]
  refine ⟨rounded_nonneg nonneg, ?_⟩
  push_cast at *
  linarith [moved.2]

/-! ### Decoding -/

section Decoding

variable {host : Host Binary32} {registry : MorphemeRegistry} {node : Node Binary32}
  {scaleRef : Binary32} {found : List Binary32}

theorem Recovers.decodeHead
    (recovers : Recovers scaleRef (encodeNode host registry node).data found)
    (few : headToIndex registry node.predicate.head ≤ 10000) :
    PackedCodec.decodeHead registry found = carriedHead registry node.predicate.head := by
  have isEntry : (encodeNode host registry node).data[offHeadIndex]? =
      some (ofNat (headToIndex registry node.predicate.head) / maxMorphemes) := by
    rw [data_encodeNode]
    rfl
  obtain ⟨r, read, near⟩ := recovers.recoverValue isEntry
  have isIndex := toIndex_mul_eq value_maxMorphemes (by decide) few (by decide) near
  rw [PackedCodec.decodeHead, read]
  show (match registry.lookupId ⟨UInt32.ofNat (r * maxMorphemes).toIndex⟩ with
    | some morpheme => Except.ok morpheme.name
    | none => Except.error (Stop.fail (CodecError.term (LatentError.decodeError
        ("morpheme index " ++ toString (r * maxMorphemes).toIndex ++ " not in registry"))))) = _
  rw [isIndex]
  rfl

theorem Recovers.unpackArgs
    (recovers : Recovers scaleRef (encodeNode host registry node).data found) :
    ∃ raw, PackedCodec.recoverValue found offPackedArgs = .ok raw ∧
      PackedCodec.unpackArgs raw = (min node.predicate.args.length 3,
        [codeAt host node.predicate.args 0, codeAt host node.predicate.args 1,
          codeAt host node.predicate.args 2]) := by
  have isEntry : (encodeNode host registry node).data[offPackedArgs]? =
      some (packArgs (min node.predicate.args.length 3) [codeAt host node.predicate.args 0,
        codeAt host node.predicate.args 1, codeAt host node.predicate.args 2]) := by
    rw [data_encodeNode]
    rfl
  obtain ⟨raw, read, near⟩ := recovers.recoverValue isEntry
  refine ⟨raw, read, ?_⟩
  have few0 := codeAt_le host node.predicate.args 0
  have few1 := codeAt_le host node.predicate.args 1
  have few2 := codeAt_le host node.predicate.args 2
  obtain ⟨t0, isT0⟩ : ∃ t, codeAt host node.predicate.args 0 = t := ⟨_, rfl⟩
  obtain ⟨t1, isT1⟩ : ∃ t, codeAt host node.predicate.args 1 = t := ⟨_, rfl⟩
  obtain ⟨t2, isT2⟩ : ∃ t, codeAt host node.predicate.args 2 = t := ⟨_, rfl⟩
  obtain ⟨count, isCount⟩ : ∃ count, min node.predicate.args.length 3 = count := ⟨_, rfl⟩
  rw [isT0] at few0
  rw [isT1] at few1
  rw [isT2] at few2
  rw [isT0, isT1, isT2, isCount] at near ⊢
  have few : count ≤ 3 := isCount ▸ min_le_right _ _
  have packed := packed_le few few0 few1 few2
  have isIndex : (raw * maxPacked).toIndex =
      count * 1331 + t0.toNat * 121 + t1.toNat * 11 + t2.toNat :=
    toIndex_mul_eq value_maxPacked (by decide) (by omega) (by decide) near
  have isCount' : min ((raw * maxPacked).toIndex / 1331) 3 = count := by omega
  have is0 : (raw * maxPacked).toIndex % 1331 / 121 = t0.toNat := by omega
  have is1 : (raw * maxPacked).toIndex % 1331 / 11 % 11 = t1.toNat := by omega
  have is2 : (raw * maxPacked).toIndex % 1331 % 11 = t2.toNat := by omega
  rw [PackedCodec.unpackArgs]
  simp only [isCount', is0, is1, is2, UInt8.ofNat_toNat]

theorem drop_data_encodeNode {i : Nat} (first : i < 3) : ∃ more,
    (encodeNode host registry node).data.drop (offArg i) =
      numbersAt host node.predicate.args i ++ more := by
  have length0 := length_numbersAt host node.predicate.args 0
  have length1 := length_numbersAt host node.predicate.args 1
  rw [data_encodeNode]
  match i, first with
  | 0, _ => exact ⟨_, rfl⟩
  | 1, _ => exact ⟨numbersAt host node.predicate.args 2 ++ [namedNumber host node.predicate.named,
      node.confidence.value, node.authority.value], List.drop_left' (i := argFloats) length0⟩
  | 2, _ =>
    refine ⟨[namedNumber host node.predicate.named, node.confidence.value, node.authority.value],
      ?_⟩
    rw [← List.append_assoc (numbersAt host node.predicate.args 0)]
    have length01 : (numbersAt host node.predicate.args 0 ++
        numbersAt host node.predicate.args 1).length = 12 := by
      rw [List.length_append, length0, length1]
      rfl
    exact List.drop_left' length01

theorem Recovers.decodeArgs
    (recovers : Recovers scaleRef (encodeNode host registry node).data found) (count : Nat) :
    ∀ offset : Nat, offset + count ≤ min node.predicate.args.length 3 →
      PackedCodec.decodeArgs host found [codeAt host node.predicate.args 0,
        codeAt host node.predicate.args 1, codeAt host node.predicate.args 2]
          (List.range' offset count) =
        carriedTerms host ((node.predicate.args.drop offset).take count) := by
  induction count with
  | zero =>
    intro offset _
    rw [List.take_zero]
    rfl
  | succ count inductionHypothesis =>
    intro offset few
    have short : offset < node.predicate.args.length := by omega
    have first : offset < 3 := by omega
    have isArg : node.predicate.args[offset]? = some node.predicate.args[offset] :=
      List.getElem?_eq_getElem short
    obtain ⟨arg, isArg'⟩ : ∃ arg, node.predicate.args[offset]? = some arg := ⟨_, isArg⟩
    have isDrop : node.predicate.args.drop offset =
        arg :: node.predicate.args.drop (offset + 1) := by
      rw [isArg, Option.some.injEq] at isArg'
      rw [← isArg', List.drop_eq_getElem_cons short]
    have isCode : [codeAt host node.predicate.args 0, codeAt host node.predicate.args 1,
        codeAt host node.predicate.args 2].getD offset 0 = (termValueString host arg).2 := by
      have code : codeAt host node.predicate.args offset = (termValueString host arg).2 := by
        rw [codeAt, isArg']
      rw [← code]
      match offset, first with
      | 0, _ => rfl
      | 1, _ => rfl
      | 2, _ => rfl
    obtain ⟨more, isSlice⟩ := @drop_data_encodeNode host registry node _ first
    rw [numbersAt, isArg'] at isSlice
    have read := recovers.decodeStringSlice isSlice
    have rest := inductionHypothesis (offset + 1) (by omega)
    have positive := (typeCode_bounds host arg).1
    rw [List.range'_succ, PackedCodec.decodeArgs, isCode, read, isDrop, List.take_succ_cons,
      carriedTerms, carriedTerm, rest]
    obtain ⟨chars, isChars⟩ : ∃ chars, kept (termValueString host arg).1.toList = chars := ⟨_, rfl⟩
    obtain ⟨code, isCode'⟩ : ∃ code, (termValueString host arg).2 = code := ⟨_, rfl⟩
    rw [isChars]
    rw [isCode'] at positive ⊢
    cases chars with
    | nil =>
      show (if (true && decide (0 < code)) = true then _ else _) = _
      rw [if_pos (by simpa using positive)]
      rfl
    | cons c chars =>
      have notEmpty : (String.ofList (c :: chars)).isEmpty = false := by simp
      show (if ((String.ofList (c :: chars)).isEmpty && decide (0 < code)) = true then _ else
        (if 0 < code then _ else _)) = _
      rw [notEmpty, Bool.false_and, if_neg Bool.false_ne_true, if_pos positive]
      rfl

theorem Recovers.decodePredicate
    (recovers : Recovers scaleRef (encodeNode host registry node).data found)
    (few : headToIndex registry node.predicate.head ≤ 10000) :
    PackedCodec.decodePredicate host registry found = carried host registry node.predicate := by
  obtain ⟨raw, read, unpacked⟩ := recovers.unpackArgs
  have args := recovers.decodeArgs (min node.predicate.args.length 3) 0 (by omega)
  have isTake : (node.predicate.args.drop 0).take (min node.predicate.args.length 3) =
      node.predicate.args.take 3 := by
    rw [List.drop_zero, min_comm, List.take_eq_take_iff]
    omega
  rw [← List.range_eq_range', isTake] at args
  rw [PackedCodec.decodePredicate, recovers.decodeHead few, read, carried, ← args]
  cases carriedHead registry node.predicate.head with
  | error stop => rfl
  | ok name =>
    show (do
      let args ← PackedCodec.decodeArgs host found (PackedCodec.unpackArgs raw).2
        (List.range (PackedCodec.unpackArgs raw).1)
      return (⟨.name name, args, []⟩ : Predicate)) = _
    rw [unpacked]
    rfl

/-- The result for a predicate that was read. -/
def decodedResult (host : Host Binary32) (authority : Binary32) (predicate : Predicate) :
    DecodeResult :=
  ⟨[decodedNode predicate authority], canonical host (decodedNode predicate authority)⟩

/-- A vector is decoded to what is carried of its node, and an authority close to its own. -/
theorem Recovers.decode
    (recovers : Recovers scaleRef (encodeNode host registry node).data found)
    (few : headToIndex registry node.predicate.head ≤ 10000) (scored : node.Scored) :
    ∃ authority : Binary32, |authority.value - node.authority.value.value| ≤ 1 / 23000 ∧
      PackedCodec.decode host registry ⟨found, packedCodecDim⟩ =
        (carried host registry node.predicate).map (decodedResult host authority) := by
  have isConfidence : (encodeNode host registry node).data[offConfidence]? =
      some node.confidence.value := by
    rw [data_encodeNode]
    simp [length_numbersAt, argFloats, offConfidence]
  have isAuthority : (encodeNode host registry node).data[offAuthority]? =
      some node.authority.value := by
    rw [data_encodeNode]
    simp [length_numbersAt, argFloats, offAuthority]
  obtain ⟨confidence, readConfidence, _⟩ := recovers.recoverValue isConfidence
  obtain ⟨authority, readAuthority, near⟩ := recovers.recoverValue isAuthority
  obtain ⟨nonneg, below⟩ := unit_of_inUnit scored.2
  refine ⟨authority.clamp (F32.lit 0 0) (F32.lit 1 0), ?_, ?_⟩
  · rw [Near, max_eq_left below] at near
    exact (abs_clamp_sub_le nonneg below authority).trans near
  · rw [PackedCodec.decode, recovers.decodePredicate few, readConfidence, readAuthority]
    cases carried host registry node.predicate with
    | error stop => rfl
    | ok predicate => rfl

end Decoding

/-! ### The gates -/

section Gates

variable {host : Host Binary32} {registry : MorphemeRegistry} {node : Node Binary32}

theorem length_data_encodeNode : (encodeNode host registry node).data.length = packedCodecDim := by
  rw [data_encodeNode]
  simp [length_numbersAt, argFloats, packedCodecDim]

/-- The squares of the numbers of a vector, but for the first, are few. -/
theorem sum_encodeNode_le (few : headToIndex registry node.predicate.head ≤ 10000)
    (scored : node.Scored) : ∃ rest, (encodeNode host registry node).data = F32.lit 1 0 :: rest ∧
      rest.length ≤ 24 ∧ (∀ x ∈ rest, 0 ≤ x.value) ∧
      ((rest.map value).map fun x => x * x).sum ≤ 1140 := by
  have isLength := @length_data_encodeNode host registry node
  have isData := data_encodeNode host registry node
  obtain ⟨nonneg, below⟩ := headNumber_bounds few
  obtain ⟨head, isHead⟩ : ∃ head, Binary32.ofNat (headToIndex registry node.predicate.head) /
    maxMorphemes = head := ⟨_, rfl⟩
  rw [isHead] at nonneg below isData
  have small : ∀ x ∈ packArgs (min node.predicate.args.length 3)
      [codeAt host node.predicate.args 0, codeAt host node.predicate.args 1,
        codeAt host node.predicate.args 2] ::
      (numbersAt host node.predicate.args 0 ++ (numbersAt host node.predicate.args 1 ++
        (numbersAt host node.predicate.args 2 ++ [namedNumber host node.predicate.named,
          node.confidence.value, node.authority.value]))), Small x := by
    have unit : ∀ {x : Binary32}, F32.inUnit x = true → Small x := fun inUnit =>
      small_of_unit (unit_of_inUnit inUnit).1 (unit_of_inUnit inUnit).2
    rw [List.forall_mem_cons, List.forall_mem_append, List.forall_mem_append,
      List.forall_mem_append]
    refine ⟨small_packArgs (min_le_right _ _) (codeAt_le host _ 0) (codeAt_le host _ 1)
      (codeAt_le host _ 2), small_numbersAt host _ 0, small_numbersAt host _ 1,
      small_numbersAt host _ 2, ?_⟩
    rw [List.forall_mem_cons, List.forall_mem_cons, List.forall_mem_singleton]
    exact ⟨small_namedNumber host _, unit scored.1, unit scored.2⟩
  obtain ⟨others, isOthers⟩ : ∃ others, packArgs (min node.predicate.args.length 3)
      [codeAt host node.predicate.args 0, codeAt host node.predicate.args 1,
        codeAt host node.predicate.args 2] ::
      (numbersAt host node.predicate.args 0 ++ (numbersAt host node.predicate.args 1 ++
        (numbersAt host node.predicate.args 2 ++ [namedNumber host node.predicate.named,
          node.confidence.value, node.authority.value]))) = others := ⟨_, rfl⟩
  rw [isOthers] at small isData
  rw [isData] at isLength
  have count : others.length = 22 := Nat.succ.inj (Nat.succ.inj isLength)
  refine ⟨head :: others, isData, ?_, ?_, ?_⟩
  · rw [List.length_cons, count]
    decide
  · exact List.forall_mem_cons.mpr ⟨nonneg, fun x member => (small x member).1⟩
  · have sum := sum_squares_le small
    rw [count] at sum
    have square : head.value * head.value ≤ 1112 := by nlinarith
    rw [List.map_cons, List.map_cons, List.sum_cons]
    push_cast at sum
    linarith

end Gates

/-- Whatever the gates do to the vector of a node, it is decoded to what is carried of the node,
with an authority that is close to its own. -/
theorem decode_gated (host : Host Binary32) (registry : MorphemeRegistry)
    (gates : Benchmark.AntiCheatGates) {node : Node Binary32}
    (few : headToIndex registry node.predicate.head ≤ 10000) (scored : node.Scored) :
    ∃ authority : Binary32, |authority.value - node.authority.value.value| ≤ 1 / 23000 ∧
      decode host registry (gates.applyLatentOperation (encodeNode host registry node)) =
        (carried host registry node.predicate).map (decodedResult host authority) := by
  obtain ⟨rest, isData, short, nonneg, sum⟩ := @sum_encodeNode_le host registry node few scored
  unfold Benchmark.AntiCheatGates.applyLatentOperation
  by_cases enabled : gates.latentOperationEnabled = true
  · obtain ⟨scaleRef, recovers⟩ := recovers_operated value_one short nonneg sum
    obtain ⟨authority, near, decodes⟩ := (isData ▸ recovers : Recovers scaleRef
      (encodeNode host registry node).data (operated (F32.lit 1 0 :: rest))).decode few scored
    refine ⟨authority, near, ?_⟩
    have norm := (l2Norm_bounds value_one short sum).1
    have isNorm : (encodeNode host registry node).l2Norm =
        (ThoughtVector.fromVec (F32.lit 1 0 :: rest)).l2Norm := by
      rw [ThoughtVector.l2Norm, isData]
      rfl
    have notTiny : F32.lt (encodeNode host registry node).l2Norm (F32.lit 1 10) = false := by
      rw [isNorm, lt_eq]
      refine decide_eq_false (not_lt.mpr ?_)
      linarith [tiny_lt]
    have isOperated : ThoughtVector.fromVec ((encodeNode host registry node).normalize.data.map
        fun v => v + F32.lit 1 6) = ⟨operated (F32.lit 1 0 :: rest), packedCodecDim⟩ := by
      rw [ThoughtVector.normalize, notTiny, isNorm]
      show ThoughtVector.fromVec (((encodeNode host registry node).data.map _).map _) = _
      rw [isData, ThoughtVector.fromVec, List.length_map, List.length_map, ← isData,
        length_data_encodeNode, isData]
      rfl
    rw [enabled, Bool.not_true, if_neg Bool.false_ne_true, isOperated]
    exact decodes
  · rw [Bool.eq_false_iff.mpr enabled, Bool.not_false, if_pos rfl]
    have isScale : (encodeNode host registry node).data[offScaleRef]? = some (F32.lit 1 0) := by
      rw [isData]
      rfl
    exact (recovers_self value_one isScale).decode few scored

/-- A registry of one morpheme. -/
def places : MorphemeRegistry := (MorphemeRegistry.new.registerName "located-in" .relation).2

/-- A place with a long name. -/
def longPlace : Node Binary32 :=
  Node.new "n1" ⟨.name "located-in", [.ent ⟨"ACME"⟩, .ent ⟨"SAN-FRANCISCO"⟩], []⟩

theorem longPlace_scored : longPlace.Scored := by decide +kernel

/-- Gates that count no bits, but normalise and shift vectors. -/
def shifting : Benchmark.AntiCheatGates := ⟨Benchmark.usizeMax, true, F32.lit 5 1⟩

/-- The property at a place, of which twelve characters of the name come back. -/
theorem decode_gated_longPlace : ∃ authority : Binary32,
    |authority.value - longPlace.authority.value.value| ≤ 1 / 23000 ∧
      decode default places (shifting.applyLatentOperation
        (encodeNode default places longPlace)) =
        .ok (decodedResult default authority
          ⟨.name "located-in", [.ent ⟨"ACME"⟩, .ent ⟨"SAN-FRANCISC"⟩], []⟩) := by
  obtain ⟨authority, near, decodes⟩ := decode_gated default places shifting
    (by decide +kernel : headToIndex places longPlace.predicate.head ≤ 10000) longPlace_scored
  have isCarried : carried default places longPlace.predicate =
      .ok ⟨.name "located-in", [.ent ⟨"ACME"⟩, .ent ⟨"SAN-FRANCISC"⟩], []⟩ := by decide +kernel
  rw [isCarried] at decodes
  exact ⟨authority, near, decodes⟩

end PackedCodec

end Factum
