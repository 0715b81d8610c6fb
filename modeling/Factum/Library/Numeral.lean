/-
This file is about decimal numerals and the rational numbers that they denote.

A numeral is an optional sign, digits, and optionally a point with digits after it, with at
least one digit in all. It denotes the number of its whole part and that of its fraction
divided by a power of ten. Read without its point it is one number of digits, and the
denoted number is this one divided by ten to the number of places after the point.
-/

import Mathlib.Data.Rat.Defs
import Mathlib.Tactic.FieldSimp
import Mathlib.Tactic.Positivity
import Mathlib.Tactic.Ring

/-- The sign before a numeral. -/
inductive Sign where
  | none
  | plus
  | minus
deriving DecidableEq, Repr

namespace Sign

/-- The characters of a sign. -/
def text : Sign → List Char
  | none => []
  | plus => ['+']
  | minus => ['-']

/-- What a sign multiplies by. -/
def factor : Sign → Int
  | none => 1
  | plus => 1
  | minus => -1

theorem factor_ne_zero (sign : Sign) : (sign.factor : ℚ) ≠ 0 := by
  cases sign <;> simp [factor]

end Sign

/-- A decimal numeral: its sign, the digits before the point and, if it has one, those after
it. -/
structure Numeral where
  sign : Sign
  whole : List Char
  point : Option (List Char)
  wholeDigits : whole.all Char.isDigit = true
  fractionDigits : (point.getD []).all Char.isDigit = true
  nonempty : whole ≠ [] ∨ point.getD [] ≠ []

namespace Numeral

/-- The digits after the point. -/
def fraction (numeral : Numeral) : List Char := numeral.point.getD []

/-- The number of digits after the point. -/
def places (numeral : Numeral) : Nat := numeral.fraction.length

/-- The digits without sign and point, as a number. -/
def digits (numeral : Numeral) : Nat :=
  Nat.ofDigitChars 10 (numeral.whole ++ numeral.fraction) 0

/-- The point and the digits after it. -/
def pointText : Option (List Char) → List Char
  | none => []
  | some fraction => '.' :: fraction

/-- The characters of a numeral. -/
def text (numeral : Numeral) : List Char :=
  numeral.sign.text ++ (numeral.whole ++ pointText numeral.point)

/-- The number that a numeral denotes. -/
def value (numeral : Numeral) : ℚ :=
  numeral.sign.factor * (Nat.ofDigitChars 10 numeral.whole 0 +
    Nat.ofDigitChars 10 numeral.fraction 0 / 10 ^ numeral.places)

/-- The number without its point, divided by ten to the number of places. -/
theorem value_eq (numeral : Numeral) :
    numeral.value = numeral.sign.factor * numeral.digits / 10 ^ numeral.places := by
  have joined : numeral.digits = 10 ^ numeral.places * Nat.ofDigitChars 10 numeral.whole 0 +
      Nat.ofDigitChars 10 numeral.fraction 0 := by
    rw [digits, Nat.ofDigitChars_append, Nat.ofDigitChars_eq_ofDigitChars_zero]
    rfl
  have positive : (10 : ℚ) ^ numeral.places ≠ 0 := by positivity
  rw [value, joined]
  push_cast
  field_simp

/-- The same digits with other places denote the same number only if they are all zero. -/
theorem shifted_eq_value_iff (numeral : Numeral) (scale : Nat) :
    ((numeral.sign.factor * numeral.digits : Int) : ℚ) / 10 ^ scale = numeral.value ↔
      scale = numeral.places ∨ numeral.digits = 0 := by
  rw [value_eq]
  push_cast
  constructor
  · intro same
    by_cases none_ : numeral.digits = 0
    · exact .inr none_
    · refine .inl ?_
      have positive : (numeral.sign.factor : ℚ) * numeral.digits ≠ 0 :=
        mul_ne_zero numeral.sign.factor_ne_zero (Nat.cast_ne_zero.mpr none_)
      rw [div_eq_div_iff (by positivity) (by positivity)] at same
      have powers : (10 : ℚ) ^ numeral.places = 10 ^ scale := mul_left_cancel₀ positive same
      have powers : 10 ^ numeral.places = 10 ^ scale := by exact_mod_cast powers
      exact (Nat.pow_right_injective (by decide : 2 ≤ 10) powers).symm
  · rintro (rfl | none_)
    · rfl
    · rw [none_]
      simp

end Numeral
