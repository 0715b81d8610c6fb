/-
This file says which numbers the reader of decimals returns.

A text that is read as a decimal is a numeral between spaces, and the mantissa is the number
of its digits with its sign. The scale is the number of digits after the point in a byte. So
the number that is read is the one that the text denotes unless the numeral has 256 digits or
more after its point. A decimal that is printed has at most 255 of them, and it is read back
unless its mantissa is the one integer whose absolute value is out of range.
-/

import Factum.Library.Numeral
import Factum.Numerals

namespace Factum

open Lexer

variable {F : Type}

/-! ### Texts of numerals -/

theorem not_isDigit_of_all {c : Char} (notDigit : c.isDigit = false) {text : List Char}
    (digits : text.all Char.isDigit = true) : c ∉ text := by
  intro member
  rw [List.all_eq_true.mp digits c member] at notDigit
  cases notDigit

theorem splitSign_text (numeral : Numeral) : splitSign numeral.text =
    (numeral.sign.factor, numeral.whole ++ Numeral.pointText numeral.point) := by
  obtain ⟨sign, whole, point, wholeDigits, _, nonempty⟩ := numeral
  unfold Numeral.text
  cases sign with
  | plus => rfl
  | minus => rfl
  | none =>
    have plain : ∀ r : List Char, whole ++ Numeral.pointText point ≠ '-' :: r ∧
        whole ++ Numeral.pointText point ≠ '+' :: r := by
      intro r
      cases whole with
      | nil =>
        cases point with
        | none => exact absurd rfl (nonempty.resolve_left (absurd rfl))
        | some fraction => constructor <;> exact fun same => by cases same
      | cons d rest =>
        have digit : d.isDigit = true := List.all_eq_true.mp wholeDigits d List.mem_cons_self
        constructor <;> (rintro same; rw [(List.cons.inj same).1] at digit; cases digit)
    show splitSign (whole ++ Numeral.pointText point) = _
    unfold splitSign
    split
    · exact absurd ‹_› (plain _).1
    · exact absurd ‹_› (plain _).2
    · rfl

theorem splitPoint_text (numeral : Numeral) :
    splitPoint (numeral.whole ++ Numeral.pointText numeral.point) =
      (numeral.whole, numeral.fraction) := by
  obtain ⟨sign, whole, point, wholeDigits, _, _⟩ := numeral
  have noPoint : ∀ c ∈ whole, (c != '.') = true := by
    intro c member
    rw [bne_iff_ne]
    rintro rfl
    exact not_isDigit_of_all rfl wholeDigits member
  have spans : (whole ++ Numeral.pointText point).span (· != '.') =
      (whole, Numeral.pointText point) := by
    rw [List.span_eq_takeWhile_dropWhile, List.takeWhile_append_of_pos noPoint,
      List.dropWhile_append_of_pos noPoint]
    cases point with
    | none => simp [Numeral.pointText]
    | some fraction => simp [Numeral.pointText]
  unfold splitPoint
  dsimp only
  rw [spans]
  cases point <;> rfl

/-- A text with a sign is the sign and what follows it. -/
theorem exists_of_splitSign (s : List Char) :
    ∃ sign : Sign, s = sign.text ++ (splitSign s).2 ∧ (splitSign s).1 = sign.factor := by
  unfold splitSign
  split
  · exact ⟨.minus, rfl, rfl⟩
  · exact ⟨.plus, rfl, rfl⟩
  · exact ⟨.none, rfl, rfl⟩

/-- A text with a point is what is before it and what is after it. -/
theorem exists_of_splitPoint (s : List Char) : ∃ point : Option (List Char),
    s = (splitPoint s).1 ++ Numeral.pointText point ∧ (splitPoint s).2 = point.getD [] := by
  have whole := List.takeWhile_append_dropWhile (p := (· != '.')) (l := s)
  unfold splitPoint
  rw [List.span_eq_takeWhile_dropWhile]
  cases isRest : s.dropWhile (· != '.') with
  | nil =>
    rw [isRest] at whole
    exact ⟨none, whole.symm, rfl⟩
  | cons c fraction =>
    have isPoint : c = '.' := by
      have first := List.head?_dropWhile_not (· != '.') s
      rw [isRest] at first
      simpa using first
    rw [isRest, isPoint] at whole
    exact ⟨some fraction, whole.symm, rfl⟩

/-! ### What is read -/

/-- The parts of reading a text that is a numeral between spaces. -/
theorem decFromStr_of_text {numeral : Numeral} {text : String}
    (isText : numeral.text = trim text.toList) :
    (Literal.decFromStr text : Except (CoreError F) Literal) =
      if i128Max < numeral.digits then .error (.invalidDecimal (String.ofList numeral.text))
      else match I128.ofInt? (numeral.digits * numeral.sign.factor) with
        | some mantissa => .ok (.dec mantissa (UInt8.ofNat numeral.places))
        | none => .error .decimalOverflow := by
  have someDigit : (numeral.whole.isEmpty && numeral.fraction.isEmpty) = false := by
    rw [Bool.and_eq_false_iff, List.isEmpty_eq_false_iff, List.isEmpty_eq_false_iff]
    exact numeral.nonempty
  have fractionDigits : numeral.fraction.all Char.isDigit = true := numeral.fractionDigits
  unfold Literal.decFromStr
  rw [← isText]
  simp only [splitSign_text, splitPoint_text, someDigit, numeral.wholeDigits, fractionDigits]
  rfl

/-- The digits of a numeral in range, with its sign, are in range. -/
theorem exists_of_digits_le {numeral : Numeral} (fits : numeral.digits ≤ i128Max) :
    ∃ mantissa : I128, I128.ofInt? (numeral.digits * numeral.sign.factor) = some mantissa ∧
      mantissa.val = numeral.sign.factor * numeral.digits := by
  have inRange : -2 ^ 127 ≤ (numeral.digits : Int) * numeral.sign.factor ∧
      (numeral.digits : Int) * numeral.sign.factor < 2 ^ 127 := by
    have bound : numeral.digits ≤ 2 ^ 127 - 1 := fits
    cases numeral.sign <;> simp only [Sign.factor] <;> omega
  exact ⟨⟨_, inRange⟩, dif_pos inRange, Int.mul_comm _ _⟩

/-- A text that is read as a decimal is a numeral between spaces. -/
theorem exists_numeral_of_decFromStr {text : String} {literal : Literal}
    (read : (Literal.decFromStr text : Except (CoreError F) Literal) = .ok literal) :
    ∃ numeral : Numeral, numeral.text = trim text.toList := by
  obtain ⟨sign, isSigned, _⟩ := exists_of_splitSign (trim text.toList)
  obtain ⟨point, isPointed, isFraction⟩ :=
    exists_of_splitPoint (splitSign (trim text.toList)).2
  unfold Literal.decFromStr at read
  dsimp only at read
  split_ifs at read with isEmpty notDigits
  rw [Bool.and_eq_true, List.isEmpty_iff, List.isEmpty_iff, not_and_or] at isEmpty
  rw [Bool.or_eq_true, not_or, Bool.not_eq_true', Bool.not_eq_false, Bool.not_eq_true',
    Bool.not_eq_false] at notDigits
  rw [isFraction] at isEmpty notDigits
  refine ⟨⟨sign, _, point, notDigits.1, notDigits.2, isEmpty⟩, ?_⟩
  show sign.text ++ (_ ++ Numeral.pointText point) = _
  rw [← isPointed, ← isSigned]

/-- A text is read as a decimal exactly when it is a numeral between spaces whose digits are in
range; the scale is the number of places in a byte. -/
theorem decFromStr_eq_ok_iff (text : String) (mantissa : I128) (scale : UInt8) :
    (Literal.decFromStr text : Except (CoreError F) Literal) = .ok (.dec mantissa scale) ↔
      ∃ numeral : Numeral, numeral.text = trim text.toList ∧ numeral.digits ≤ i128Max ∧
        mantissa.val = numeral.sign.factor * numeral.digits ∧
        scale = UInt8.ofNat numeral.places := by
  constructor
  · intro read
    obtain ⟨numeral, isText⟩ := exists_numeral_of_decFromStr read
    rw [decFromStr_of_text isText] at read
    by_cases large : i128Max < numeral.digits
    · rw [if_pos large] at read
      cases read
    · have fits := Nat.le_of_not_lt large
      obtain ⟨value, inRange, isValue⟩ := exists_of_digits_le fits
      rw [if_neg large, inRange] at read
      cases read
      exact ⟨numeral, isText, fits, isValue, rfl⟩
  · rintro ⟨numeral, isText, fits, isMantissa, rfl⟩
    obtain ⟨value, inRange, isValue⟩ := exists_of_digits_le fits
    have same : value = mantissa := Subtype.ext (isValue.trans isMantissa.symm)
    rw [decFromStr_of_text isText, if_neg (Nat.not_lt.mpr fits), inRange, same]

/-- The characters of a numeral say what it denotes. -/
theorem value_of_text {first second : Numeral} (same : first.text = second.text) :
    first.value = second.value := by
  have signs := splitSign_text first
  rw [same, splitSign_text second, Prod.mk.injEq] at signs
  have points := splitPoint_text first
  rw [← signs.2, splitPoint_text second, Prod.mk.injEq] at points
  unfold Numeral.value Numeral.places
  rw [signs.1, points.1, points.2]

/-! ### Whether it is what the text denotes -/

/-- What a text is read as is what it denotes: the text is a numeral between spaces, and the
mantissa divided by ten to the scale is the number that this denotes. -/
def ReadsExactly (text : String) (mantissa : I128) (scale : UInt8) : Prop :=
  ∃ numeral : Numeral, numeral.text = trim text.toList ∧
    (mantissa.val : ℚ) / 10 ^ scale.toNat = numeral.value

/-- A numeral in range is read as what it denotes exactly when its places fit in a byte or its
digits are all zero. -/
theorem readsExactly_iff_of_text {numeral : Numeral} {text : String}
    (isText : numeral.text = trim text.toList) {mantissa : I128}
    (isMantissa : mantissa.val = numeral.sign.factor * numeral.digits) :
    ReadsExactly text mantissa (UInt8.ofNat numeral.places) ↔
      numeral.places < 256 ∨ numeral.digits = 0 := by
  have wraps : (UInt8.ofNat numeral.places).toNat = numeral.places ↔ numeral.places < 256 := by
    rw [UInt8.toNat_ofNat']
    exact Nat.mod_eq_iff_lt (by decide)
  rw [← wraps, ← numeral.shifted_eq_value_iff, ← isMantissa]
  constructor
  · rintro ⟨numeral', isText', isDenoted⟩
    rwa [value_of_text (isText'.trans isText.symm)] at isDenoted
  · exact fun isDenoted => ⟨numeral, isText, isDenoted⟩

/-- What a text is read as is what it denotes, unless the text is a numeral with 256 places or
more whose digits are in range and not all zero. -/
theorem readsExactly_iff (text : String) :
    (∀ mantissa scale, (Literal.decFromStr text : Except (CoreError F) Literal) =
        .ok (.dec mantissa scale) → ReadsExactly text mantissa scale) ↔
      ∀ numeral : Numeral, numeral.text = trim text.toList → numeral.digits ≤ i128Max →
        numeral.places < 256 ∨ numeral.digits = 0 := by
  constructor
  · intro exactly numeral isText fits
    obtain ⟨mantissa, _, isMantissa⟩ := exists_of_digits_le fits
    refine (readsExactly_iff_of_text isText isMantissa).mp (exactly mantissa _ ?_)
    exact (decFromStr_eq_ok_iff text _ _).mpr ⟨numeral, isText, fits, isMantissa, rfl⟩
  · intro short mantissa scale read
    obtain ⟨numeral, isText, fits, isMantissa, rfl⟩ := (decFromStr_eq_ok_iff text _ _).mp read
    exact (readsExactly_iff_of_text isText isMantissa).mpr (short numeral isText fits)

/-- A numeral with 256 places, the last of which is a one. -/
def longNumeral : Numeral where
  sign := .none
  whole := ['0']
  point := some (List.replicate 255 '0' ++ ['1'])
  wholeDigits := rfl
  fractionDigits := by decide +kernel
  nonempty := .inl (by decide)

/-- It is read as one. -/
theorem longNumeral_read_as_one :
    (Literal.decFromStr (String.ofList longNumeral.text) : Except (CoreError Unit) Literal) =
        .ok (.dec ⟨1, by decide⟩ 0) ∧
      ¬ ReadsExactly (String.ofList longNumeral.text) ⟨1, by decide⟩ 0 := by
  have isText : longNumeral.text = trim (String.ofList longNumeral.text).toList := by
    decide +kernel
  have isOne : longNumeral.digits = 1 := by decide +kernel
  have isMantissa : (1 : Int) = longNumeral.sign.factor * longNumeral.digits := by
    rw [isOne]
    rfl
  have isScale : (0 : UInt8) = UInt8.ofNat longNumeral.places := by decide +kernel
  have isLong : ¬ longNumeral.places < 256 := by decide +kernel
  rw [isScale]
  refine ⟨(decFromStr_eq_ok_iff _ _ _).mpr ⟨longNumeral, isText, ?_, isMantissa, rfl⟩,
    fun exactly => ?_⟩
  · rw [isOne]
    decide
  · rcases (readsExactly_iff_of_text isText isMantissa).mp exactly with short | zero
    · exact isLong short
    · rw [isOne] at zero
      exact Nat.one_ne_zero zero

/-! ### Printing and reading -/

/-- A decimal is read back from the text it prints exactly when the absolute value of its
mantissa is in range. -/
theorem decFromStr_decToString_iff (mantissa : I128) (scale : UInt8) :
    (Literal.decFromStr (decToString mantissa scale) : Except (CoreError F) Literal) =
      .ok (.dec mantissa scale) ↔ mantissa.val.natAbs ≤ i128Max := by
  constructor
  · intro read
    obtain ⟨numeral, _, fits, isValue, _⟩ := (decFromStr_eq_ok_iff _ _ _).mp read
    have same : mantissa.val.natAbs = numeral.digits := by
      rw [isValue]
      cases numeral.sign <;> simp [Sign.factor]
    rwa [same]
  · exact decFromStr_decToString scale

/-- A decimal is read back from its canonical text, with the same mantissa and the same scale,
exactly when the absolute value of its mantissa is in range. -/
theorem decFromStr_toCanonicalString_iff (host : Host F) (mantissa : I128) (scale : UInt8) :
    (Literal.decFromStr (String.ofList ((Literal.dec mantissa scale).toCanonicalString host)) :
        Except (CoreError F) Literal) = .ok (.dec mantissa scale) ↔
      mantissa.val.natAbs ≤ i128Max := by
  have isText : String.ofList ((Literal.dec mantissa scale).toCanonicalString host) =
      decToString mantissa scale := String.ofList_toList
  rw [isText]
  exact decFromStr_decToString_iff mantissa scale

end Factum
