/-
This file collects what the program takes from outside the repository.

Confidence, authority and vote weights are `f32`. The code compares them, adds
and multiplies a few of them, prints and reads them, and nothing else, so the
model is written over any type with those operations; the exact rationals are
one instance and binary floating point another. Times come from the calendar
library, which the model sees through the two values it stores and four text
functions. The text functions are one record, `Host`, that every definition
which prints or reads a number or a date takes as a parameter.
-/

import Mathlib.Algebra.Group.Int.Defs
import Mathlib.Algebra.Group.Nat.Defs
import Mathlib.Data.List.Infix
import Mathlib.Data.String.Defs
import Mathlib.Data.Rat.Defs

namespace Factum

/-- The operations on single-precision numbers that the code uses. `lit m k` is the
literal `m · 10⁻ᵏ`. -/
class F32 (F : Type) where
  lit : Nat → Nat → F
  le : F → F → Bool
  lt : F → F → Bool
  eq : F → F → Bool
  add : F → F → F
  sub : F → F → F
  mul : F → F → F
  max : F → F → F
  abs : F → F

/-- Exact numbers. -/
instance : F32 Rat where
  lit m k := mkRat m (10 ^ k)
  le a b := decide (a ≤ b)
  lt a b := decide (a < b)
  eq a b := decide (a = b)
  add a b := a + b
  sub a b := a - b
  mul a b := a * b
  max a b := if a ≤ b then b else a
  abs a := if a < 0 then -a else a

/-- `a.partial_cmp(&b)`: two numbers that are neither equal nor ordered do not compare. -/
def F32.partialCmp {F : Type} [F32 F] (a b : F) : Option Ordering :=
  if F32.eq a b then some .eq
  else if F32.lt a b then some .lt
  else if F32.lt b a then some .gt
  else none

/-- `(0.0..=1.0).contains(&v)`. -/
def F32.inUnit {F : Type} [F32 F] (v : F) : Bool :=
  F32.le (F32.lit 0 0) v && F32.le v (F32.lit 1 0)

/-! ### Outcomes -/

/-- Why a computation stops without a value: an error of the program, an index out of
bounds, or a loop of the model that ran out of fuel. -/
inductive Stop (Error : Type) where
  | fail (error : Error)
  | panic
  | fuel
deriving DecidableEq, Repr

/-! ### Calendar values -/

/-- The first day of the calendar library, 1 January of the year -262143. -/
def firstDay : Int := -96465292

/-- The last day of the calendar library, 31 December of the year 262142. -/
def lastDay : Int := 95026236

/-- A calendar date, counted in days from 1970-01-01. -/
structure NaiveDate where
  daysFromEpoch : Int
  inRange : firstDay ≤ daysFromEpoch ∧ daysFromEpoch ≤ lastDay
deriving DecidableEq, Repr

/-- The date that many days from 1970-01-01. -/
def NaiveDate.ofDays (days : Int) : Option NaiveDate :=
  if inRange : firstDay ≤ days ∧ days ≤ lastDay then some ⟨days, inRange⟩ else none

theorem NaiveDate.ofDays_daysFromEpoch (d : NaiveDate) :
    NaiveDate.ofDays d.daysFromEpoch = some d := dif_pos d.inRange

/-- An instant: whole seconds from 1970-01-01T00:00:00Z and the nanoseconds within that
second. Leap seconds carry a nanosecond part of 10⁹ or more, as in the calendar library. -/
structure DateTime where
  timestamp : Int
  subsecNanos : Nat
  inRange : firstDay * 86400 ≤ timestamp ∧ timestamp < (lastDay + 1) * 86400
deriving DecidableEq, Repr

theorem DateTime.zero_inRange : firstDay * 86400 ≤ 0 ∧ 0 < (lastDay + 1) * 86400 := by decide

/-- The instant that many seconds and nanoseconds from 1970-01-01T00:00:00Z. -/
def DateTime.ofTimestamp (timestamp : Int) (subsecNanos : Nat) : Option DateTime :=
  if inRange : firstDay * 86400 ≤ timestamp ∧ timestamp < (lastDay + 1) * 86400 then
    some ⟨timestamp, subsecNanos, inRange⟩
  else none

theorem DateTime.ofTimestamp_timestamp (t : DateTime) :
    DateTime.ofTimestamp t.timestamp t.subsecNanos = some t := dif_pos t.inRange

/-- Instants are ordered by their seconds, then by their nanoseconds. -/
def DateTime.cmp (a b : DateTime) : Ordering :=
  (compare a.timestamp b.timestamp).then (compare a.subsecNanos b.subsecNanos)

/-- `a <= b` on instants. -/
def DateTime.le (a b : DateTime) : Bool := (a.cmp b).isLE

/-- `a < b` on instants. -/
def DateTime.lt (a b : DateTime) : Bool := (a.cmp b).isLT

/-- `d.and_hms_opt(0, 0, 0).unwrap().and_utc()`. -/
def NaiveDate.midnight (d : NaiveDate) : DateTime where
  timestamp := d.daysFromEpoch * 86400
  subsecNanos := 0
  inRange := by
    obtain ⟨notBefore, notAfter⟩ := d.inRange
    omega

/-- `t.date_naive()`: the date of an instant. -/
def DateTime.date (t : DateTime) : NaiveDate where
  daysFromEpoch := t.timestamp / 86400
  inRange := by
    obtain ⟨notBefore, notAfter⟩ := t.inRange
    omega

/-! ### The text functions of the libraries -/

/-- The printing and reading functions of the libraries. A reader that fails returns the
text of its error. -/
structure Host (F : Type) where
  /-- `format!("{}", v)` on an `f32`. -/
  f32Display : F → String
  /-- `s.parse::<f32>()`. -/
  f32FromStr : String → Except String F
  /-- `d.format("%Y-%m-%d")`. -/
  dateFormat : NaiveDate → String
  /-- `NaiveDate::parse_from_str(s, "%Y-%m-%d")`. -/
  dateFromStr : String → Except String NaiveDate
  /-- `t.to_rfc3339()`. -/
  toRfc3339 : DateTime → String
  /-- `s.parse::<DateTime<Utc>>()`. -/
  datetimeFromStr : String → Except String DateTime
  /-- `format!("{:?}", s)` on a string slice. -/
  strDebug : String → String

/-- A host for computations that print and read nothing. -/
instance {F : Type} : Inhabited (Host F) where
  default :=
    { f32Display := fun _ => ""
      f32FromStr := fun _ => .error ""
      dateFormat := fun _ => ""
      dateFromStr := fun _ => .error ""
      toRfc3339 := fun _ => ""
      datetimeFromStr := fun _ => .error ""
      strDebug := id }

/-- The characters of a printed number or date: digits, signs and the point. -/
def isNumeralChar (c : Char) : Bool := c.isDigit || c == '-' || c == '+' || c == '.'

/-- A decimal numeral: an optional minus sign, digits, and at most one point that has
digits on both sides. -/
def isPlainNumeral (text : List Char) : Prop :=
  ∃ sign whole fraction : List Char, (sign = [] ∨ sign = ['-']) ∧
    whole ≠ [] ∧ whole.all Char.isDigit ∧ fraction.all Char.isDigit ∧
    (text = sign ++ whole ∧ fraction = [] ∨
      text = sign ++ whole ++ '.' :: fraction ∧ fraction ≠ [])

/-- What the round trips rely on: the libraries read back what they print, and print
numbers, dates and instants in their documented alphabets. -/
structure Host.Lawful {F : Type} [F32 F] (host : Host F) : Prop where
  /-- A number in the unit interval prints without an exponent. -/
  f32_plain : ∀ v, F32.inUnit v = true → isPlainNumeral (host.f32Display v).toList
  f32_inverse : ∀ v, F32.inUnit v = true → host.f32FromStr (host.f32Display v) = .ok v
  /-- A numeral without a point denotes the same number with `.0` after it. -/
  f32_pointZero : ∀ text v, isPlainNumeral text.toList → '.' ∉ text.toList →
    host.f32FromStr text = .ok v → host.f32FromStr (text ++ ".0") = .ok v
  /-- The scores that a node has by default lie in the unit interval. -/
  default_inUnit : F32.inUnit (F32.lit 60 2 : F) = true ∧ F32.inUnit (F32.lit 5 1 : F) = true
  date_numeral : ∀ d, ∀ c ∈ (host.dateFormat d).toList, isNumeralChar c = true
  date_inverse : ∀ d, host.dateFromStr (host.dateFormat d) = .ok d
  datetime_plain : ∀ t, ∀ c ∈ (host.toRfc3339 t).toList, c ≠ '"' ∧ c ≠ '\\'
  datetime_inverse : ∀ t, host.datetimeFromStr (host.toRfc3339 t) = .ok t

end Factum
