/-
This file says which durations the reader of durations returns.

A text that is read as a duration is a number and a unit between spaces, and the number is
below `2 ^ 64`. A number of seconds, minutes, hours or days is multiplied in 64 bits, so what
is read is the number times the unit only if this is below `2 ^ 64` seconds. The canonical
text says a duration in nanoseconds, and the number of these is read in 64 bits too. So what
is read is exact and read back exactly when it is below `2 ^ 64` nanoseconds.
-/

import Factum.Numerals

namespace Factum

/-! ### Numbers -/

/-- Digits are read exactly when they are digits of a number below the bound. -/
theorem parseDigits_eq_ok_iff {bound n : Nat} (positive : 0 < bound) (digits : List Char) :
    parseDigits bound digits 0 = .ok n ↔
      digits.all Char.isDigit = true ∧ n = Nat.ofDigitChars 10 digits 0 ∧ n < bound := by
  have areDigits : ∀ (digits : List Char) (start : Nat), parseDigits bound digits start = .ok n →
      digits.all Char.isDigit = true := by
    intro digits
    induction digits with
    | nil => exact fun _ _ => rfl
    | cons c rest inductionHypothesis =>
      intro start read
      rw [parseDigits] at read
      split_ifs at read with notDigit
      rw [Bool.not_eq_true', Bool.not_eq_false] at notDigit
      rw [List.all_cons, notDigit, inductionHypothesis _ read]
      rfl
  constructor
  · exact fun read => ⟨areDigits digits 0 read, parseDigits_ok digits 0 positive read⟩
  · rintro ⟨all, rfl, fits⟩
    exact parseDigits_eq digits 0 all fits

/-- A number is an optional plus sign and digits. -/
def IsUnsigned (text : List Char) (number : Nat) : Prop :=
  ∃ digits : List Char, (text = digits ∨ text = '+' :: digits) ∧ digits ≠ [] ∧
    digits.all Char.isDigit = true ∧ number = Nat.ofDigitChars 10 digits 0

theorem parseUnsigned_eq_ok_iff {bound n : Nat} (positive : 0 < bound) (text : List Char) :
    parseUnsigned bound text = .ok n ↔ IsUnsigned text n ∧ n < bound := by
  have notPlus : ∀ digits : List Char, digits.all Char.isDigit = true →
      ∀ rest, digits ≠ '+' :: rest := by
    rintro _ areDigits rest rfl
    cases (Bool.and_eq_true_iff.mp areDigits).1
  unfold parseUnsigned
  split
  · refine iff_of_false nofun ?_
    rintro ⟨⟨digits, rfl | isText, nonempty, _⟩, _⟩
    · exact absurd rfl nonempty
    · cases isText
  · refine iff_of_false nofun ?_
    rintro ⟨⟨digits, rfl | isText, nonempty, areDigits, _⟩, _⟩
    · exact absurd rfl (notPlus _ areDigits _)
    · exact absurd (List.cons.inj isText).2.symm nonempty
  · rename_i digits someDigit
    rw [parseDigits_eq_ok_iff positive]
    constructor
    · rintro ⟨areDigits, isNumber, fits⟩
      exact ⟨⟨digits, .inr rfl, fun none_ => someDigit (by rw [none_]), areDigits, isNumber⟩, fits⟩
    · rintro ⟨⟨digits', rfl | isText, _, areDigits, isNumber⟩, fits⟩
      · exact absurd rfl (notPlus _ areDigits _)
      · obtain rfl := (List.cons.inj isText).2
        exact ⟨areDigits, isNumber, fits⟩
  · rename_i nonempty _ isUnsigned
    rw [parseDigits_eq_ok_iff positive]
    constructor
    · rintro ⟨areDigits, isNumber, fits⟩
      exact ⟨⟨text, .inl rfl, nonempty, areDigits, isNumber⟩, fits⟩
    · rintro ⟨⟨digits, rfl | isText, _, areDigits, isNumber⟩, fits⟩
      · exact ⟨areDigits, isNumber, fits⟩
      · exact absurd isText (isUnsigned digits)

/-! ### Units -/

/-- A unit of whole seconds. -/
inductive WholeUnit where
  | second
  | minute
  | hour
  | day
deriving DecidableEq, Repr

namespace WholeUnit

/-- The letter of a unit. -/
def text : WholeUnit → Char
  | second => 's'
  | minute => 'm'
  | hour => 'h'
  | day => 'd'

/-- The seconds of a unit. -/
def secs : WholeUnit → Nat
  | second => 1
  | minute => 60
  | hour => 3600
  | day => 86400

end WholeUnit

/-- A unit of time. -/
inductive TimeUnit where
  | nanosecond
  | whole (unit : WholeUnit)
deriving DecidableEq, Repr

namespace TimeUnit

/-- The letters of a unit. -/
def text : TimeUnit → List Char
  | nanosecond => ['n', 's']
  | whole unit => [unit.text]

/-- The nanoseconds of a unit. -/
def nanos : TimeUnit → Nat
  | nanosecond => 1
  | whole unit => unit.secs * 1000000000

/-- What a number of a unit is read as: seconds are multiplied in 64 bits. -/
def duration : TimeUnit → Nat → Duration
  | nanosecond, number => .fromNanos (UInt64.ofNat number)
  | whole unit, number => .fromSecs (UInt64.ofNat number * UInt64.ofNat unit.secs)

/-- The characters of a unit are no digits. -/
theorem not_isDigit (unit : TimeUnit) : ∀ c ∈ unit.text, c.isDigit = false := by
  have notDigit : unit.text.all (fun c => !c.isDigit) = true := by
    cases unit with
    | nanosecond => rfl
    | whole unit => cases unit <;> rfl
  simpa using notDigit

theorem text_injective : Function.Injective text := by
  intro one other same
  cases one with
  | nanosecond =>
    cases other with
    | nanosecond => rfl
    | whole other => cases congrArg List.length same
  | whole one =>
    cases other with
    | nanosecond => cases congrArg List.length same
    | whole other => cases one <;> cases other <;> first | rfl | exact absurd same (by decide)

end TimeUnit

theorem asNanos_fromNanos {number : Nat} (fits : number < 2 ^ 64) :
    (Duration.fromNanos (UInt64.ofNat number)).asNanos = number := by
  show (UInt64.ofNat number / 1000000000).toNat * 1000000000 +
    (UInt64.ofNat number).toNat % 1000000000 = number
  rw [UInt64.toNat_div, UInt64.toNat_ofNat_of_lt' fits]
  exact Nat.div_add_mod' number 1000000000

theorem asNanos_fromSecs {number : Nat} (fits : number < 2 ^ 64) (unit : WholeUnit) :
    (Duration.fromSecs (UInt64.ofNat number * UInt64.ofNat unit.secs)).asNanos =
      number * unit.secs % 2 ^ 64 * 1000000000 := by
  have small : unit.secs < 2 ^ 64 := by cases unit <;> decide
  rw [Duration.fromSecs, Duration.asNanos, UInt64.toNat_mul, UInt64.toNat_ofNat_of_lt' fits,
    UInt64.toNat_ofNat_of_lt' small]
  exact Nat.add_zero _

/-- A number of a unit is read as what it is, and in a range that is read back, exactly when it
is below `2 ^ 64` nanoseconds. -/
theorem TimeUnit.asNanos_duration_iff (unit : TimeUnit) {number : Nat} (fits : number < 2 ^ 64) :
    ((unit.duration number).asNanos = number * unit.nanos ∧
        (unit.duration number).asNanos < 2 ^ 64) ↔ number * unit.nanos < 2 ^ 64 := by
  cases unit with
  | nanosecond =>
    rw [TimeUnit.duration, asNanos_fromNanos fits, TimeUnit.nanos, Nat.mul_one]
    exact and_iff_right rfl
  | whole unit =>
    rw [TimeUnit.duration, asNanos_fromSecs fits, TimeUnit.nanos, ← Nat.mul_assoc]
    constructor
    · rintro ⟨same, inRange⟩
      rwa [same] at inRange
    · intro inRange
      rw [Nat.mod_eq_of_lt (by omega)]
      exact ⟨rfl, inRange⟩

/-! ### Texts of durations -/

/-- A duration is a number and a unit. -/
structure IsDuration (text : List Char) (number : Nat) (unit : TimeUnit) : Prop where
  split : ∃ numeral, text = numeral ++ unit.text ∧ IsUnsigned numeral number ∧
    (unit ≠ .nanosecond → numeral.all Char.isDigit = true)

/-- A number is the number that its characters say. -/
theorem IsUnsigned.unique {text : List Char} {number number' : Nat}
    (isUnsigned : IsUnsigned text number) (isUnsigned' : IsUnsigned text number') :
    number = number' := by
  have read := (parseUnsigned_eq_ok_iff (Nat.succ_pos (number + number')) text).mpr
    ⟨isUnsigned, by omega⟩
  rw [(parseUnsigned_eq_ok_iff (Nat.succ_pos (number + number')) text).mpr
    ⟨isUnsigned', by omega⟩] at read
  exact (Except.ok.inj read).symm

/-- A number ends with a digit. -/
theorem IsUnsigned.last {text : List Char} {number : Nat} (isUnsigned : IsUnsigned text number) :
    ∃ front d, text = front ++ [d] ∧ d.isDigit = true := by
  obtain ⟨digits, isText, nonempty, areDigits, _⟩ := isUnsigned
  have digit := List.all_eq_true.mp areDigits _ (List.getLast_mem nonempty)
  have split := List.dropLast_append_getLast nonempty
  rcases isText with rfl | rfl
  · exact ⟨_, _, split.symm, digit⟩
  · exact ⟨'+' :: digits.dropLast, _, congrArg _ split.symm, digit⟩

/-- The unit of a duration is what is after its last digit. -/
theorem IsDuration.unit_text {text : List Char} {number : Nat} {unit : TimeUnit}
    (isDuration : IsDuration text number unit) :
    (text.reverse.takeWhile fun c => !c.isDigit).reverse = unit.text := by
  obtain ⟨numeral, rfl, isUnsigned, _⟩ := isDuration.split
  obtain ⟨front, d, rfl, digit⟩ := isUnsigned.last
  have all : ∀ c ∈ unit.text.reverse, (!c.isDigit) = true := fun c member => by
    rw [unit.not_isDigit c (List.mem_reverse.mp member)]
    rfl
  rw [List.reverse_append, List.reverse_append, List.takeWhile_append_of_pos all,
    List.reverse_singleton, List.singleton_append, List.takeWhile_cons_of_neg (by simp [digit]),
    List.append_nil, List.reverse_reverse]

/-- The characters of a duration say its number and its unit. -/
theorem IsDuration.unique {text : List Char} {number number' : Nat} {unit unit' : TimeUnit}
    (isDuration : IsDuration text number unit) (isDuration' : IsDuration text number' unit') :
    number = number' ∧ unit = unit' := by
  obtain rfl : unit = unit' :=
    TimeUnit.text_injective (isDuration.unit_text.symm.trans isDuration'.unit_text)
  obtain ⟨numeral, isText, isUnsigned, _⟩ := isDuration.split
  obtain ⟨numeral', isText', isUnsigned', _⟩ := isDuration'.split
  obtain rfl := List.append_cancel_right (isText.symm.trans isText')
  exact ⟨isUnsigned.unique isUnsigned', rfl⟩

theorem unitSecs_eq_some_iff (text : List Char) (secs : UInt64) :
    unitSecs text = some secs ↔
      ∃ unit : WholeUnit, text = [unit.text] ∧ secs = UInt64.ofNat unit.secs := by
  constructor
  · intro found
    unfold unitSecs at found
    split_ifs at found with isSecond isMinute isHour isDay <;> cases found
    · exact ⟨.second, isSecond, rfl⟩
    · exact ⟨.minute, isMinute, rfl⟩
    · exact ⟨.hour, isHour, rfl⟩
    · exact ⟨.day, isDay, rfl⟩
  · rintro ⟨unit, rfl, rfl⟩
    cases unit <;> decide

/-- A number of nanoseconds is read without its unit. -/
theorem stripSuffix_eq_some_iff (suffix text rest : List Char) :
    stripSuffix suffix text = some rest ↔ text = rest ++ suffix := by
  unfold stripSuffix
  constructor
  · intro stripped
    split_ifs at stripped with isSuffix
    obtain ⟨front, rfl⟩ := List.isSuffixOf_iff_suffix.mp isSuffix
    cases stripped
    rw [List.length_append, Nat.add_sub_cancel, List.take_left]
  · rintro rfl
    rw [if_pos (List.isSuffixOf_iff_suffix.mpr (List.suffix_append _ _)), List.length_append,
      Nat.add_sub_cancel, List.take_left]

/-- A number of whole seconds, minutes, hours or days does not end like nanoseconds. -/
theorem stripSuffix_whole {numeral : List Char} (unit : WholeUnit)
    (areDigits : numeral.all Char.isDigit = true) :
    stripSuffix "ns".toList (numeral ++ [unit.text]) = none := by
  cases stripped : stripSuffix "ns".toList (numeral ++ [unit.text]) with
  | none => rfl
  | some rest =>
    have isText := (stripSuffix_eq_some_iff _ _ _).mp stripped
    have isText : numeral ++ [unit.text] = (rest ++ ['n']) ++ ['s'] := by
      rw [isText, List.append_assoc]
      rfl
    have isNumeral := (List.append_inj' isText rfl).1
    rw [isNumeral, List.all_append] at areDigits
    cases (Bool.and_eq_true_iff.mp areDigits).2

/-- A text is read as a duration exactly when it is a number below `2 ^ 64` and a unit between
spaces. -/
theorem parseDuration_eq_ok_iff (text : String) (d : Duration) :
    parseDuration text = .ok d ↔ ∃ number unit, IsDuration (trim text.toList) number unit ∧
      number < 2 ^ 64 ∧ d = unit.duration number := by
  rw [parseDuration_eq]
  constructor
  · intro read
    split_ifs at read with isEmpty
    cases stripped : stripSuffix "ns".toList (trim text.toList) with
    | some rest =>
      rw [stripped] at read
      dsimp only at read
      cases isRead : parseUnsigned (2 ^ 64) rest with
      | error message =>
        rw [isRead] at read
        cases read
      | ok number =>
        rw [isRead] at read
        cases read
        obtain ⟨isUnsigned, fits⟩ := (parseUnsigned_eq_ok_iff (by decide) rest).mp isRead
        exact ⟨number, .nanosecond, ⟨rest, (stripSuffix_eq_some_iff _ _ _).mp stripped,
          isUnsigned, fun other => absurd rfl other⟩, fits, rfl⟩
    | none =>
      rw [stripped] at read
      dsimp only at read
      cases isRead : parseUnsigned (2 ^ 64) ((trim text.toList).takeWhile Char.isDigit) with
      | error message =>
        rw [isRead] at read
        cases read
      | ok number =>
        rw [isRead] at read
        dsimp only [Except.bind] at read
        cases found : unitSecs ((trim text.toList).dropWhile Char.isDigit) with
        | none =>
          rw [found] at read
          cases read
        | some secs =>
          rw [found] at read
          cases read
          obtain ⟨unit, isUnit, rfl⟩ := (unitSecs_eq_some_iff _ _).mp found
          obtain ⟨isUnsigned, fits⟩ := (parseUnsigned_eq_ok_iff (by decide) _).mp isRead
          have split := List.takeWhile_append_dropWhile (p := Char.isDigit) (l := trim text.toList)
          rw [isUnit] at split
          exact ⟨number, .whole unit, ⟨_, split.symm, isUnsigned, fun _ => List.all_takeWhile⟩,
            fits, rfl⟩
  · rintro ⟨number, unit, isDuration, fits, rfl⟩
    obtain ⟨numeral, isText, isUnsigned, areDigits⟩ := isDuration.split
    have read := (parseUnsigned_eq_ok_iff (by decide) numeral).mpr ⟨isUnsigned, fits⟩
    obtain ⟨front, d, isNumeral, digit⟩ := isUnsigned.last
    have nonempty : ¬ (trim text.toList).isEmpty = true := by
      rw [isText, isNumeral]
      simp
    rw [if_neg nonempty, isText]
    cases unit with
    | nanosecond =>
      have stripped : stripSuffix "ns".toList (numeral ++ TimeUnit.nanosecond.text) =
          some numeral := (stripSuffix_eq_some_iff _ _ _).mpr rfl
      rw [stripped]
      dsimp only
      rw [read]
      rfl
    | whole unit =>
      have areDigits := areDigits (by simp)
      have all : ∀ c ∈ numeral, c.isDigit = true := List.all_eq_true.mp areDigits
      have notDigit := (TimeUnit.whole unit).not_isDigit unit.text List.mem_cons_self
      have found := (unitSecs_eq_some_iff [unit.text] _).mpr ⟨unit, rfl, rfl⟩
      rw [TimeUnit.text, stripSuffix_whole unit areDigits]
      dsimp only
      rw [List.takeWhile_append_of_pos all, List.dropWhile_append_of_pos all,
        List.takeWhile_cons_of_neg (by rw [notDigit]; simp),
        List.dropWhile_cons_of_neg (by rw [notDigit]; simp), List.append_nil, read, found]
      rfl

/-! ### Whether it is what the text denotes -/

/-- What a text is read as is what it denotes: the text is a number and a unit between spaces,
and the duration is the number times the unit. -/
def ReadsDuration (text : String) (d : Duration) : Prop :=
  ∃ number unit, IsDuration (trim text.toList) number unit ∧ d.asNanos = number * unit.nanos

/-- A duration is read back from the nanoseconds that its canonical text says. -/
def Rereads {F : Type} (host : Host F) (d : Duration) : Prop :=
  ∀ content : List Char, canonicalLiteral host (.dur d) = "#dur(".toList ++ content ++ [')'] →
    parseDuration (String.ofList content) = .ok d

theorem rereads_iff {F : Type} (host : Host F) (d : Duration) :
    Rereads host d ↔ d.asNanos < 2 ^ 64 := by
  have isContent : canonicalLiteral host (.dur d) =
      "#dur(".toList ++ durationText d ++ [')'] := by
    have unit : "ns)".toList = "ns".toList ++ [')'] := rfl
    rw [canonicalLiteral, durationText, unit, ← List.append_assoc, ← List.append_assoc]
  constructor
  · intro rereads
    by_contra large
    exact parseDuration_durationText_ne (Nat.le_of_not_lt large) d (rereads _ isContent)
  · intro fits content isContent'
    have same := isContent.symm.trans isContent'
    rw [List.append_cancel_right_eq, List.append_cancel_left_eq] at same
    rw [← same]
    exact parseDuration_durationText fits

/-- A duration that is read is what its text denotes, and is read back from its canonical text,
exactly when it is below `2 ^ 64` nanoseconds. -/
theorem readsDuration_iff {F : Type} (host : Host F) (text : String) :
    (∀ d, parseDuration text = .ok d → ReadsDuration text d ∧ Rereads host d) ↔
      ∀ number unit, IsDuration (trim text.toList) number unit → number < 2 ^ 64 →
        number * unit.nanos < 2 ^ 64 := by
  constructor
  · intro exactly number unit isDuration fits
    obtain ⟨⟨number', unit', isDuration', isDenoted⟩, rereads⟩ := exactly _
      ((parseDuration_eq_ok_iff text _).mpr ⟨number, unit, isDuration, fits, rfl⟩)
    obtain ⟨rfl, rfl⟩ := isDuration.unique isDuration'
    exact (unit.asNanos_duration_iff fits).mp ⟨isDenoted, (rereads_iff host _).mp rereads⟩
  · intro small d read
    obtain ⟨number, unit, isDuration, fits, rfl⟩ := (parseDuration_eq_ok_iff text d).mp read
    obtain ⟨isDenoted, inRange⟩ :=
      (unit.asNanos_duration_iff fits).mpr (small number unit isDuration fits)
    exact ⟨⟨number, unit, isDuration, isDenoted⟩, (rereads_iff host _).mpr inRange⟩

/-- So many days wrap around, and are read as less than a day. -/
theorem many_days_wrap :
    parseDuration "213503982334602d" = .ok ⟨61184, 0⟩ ∧
      ¬ ReadsDuration "213503982334602d" ⟨61184, 0⟩ := by
  refine ⟨by decide +kernel, ?_⟩
  rintro ⟨number, unit, isDuration, isDenoted⟩
  have isDays : IsDuration (trim "213503982334602d".toList) 213503982334602 (.whole .day) := by
    refine ⟨"213503982334602".toList, by decide +kernel, ⟨_, .inl rfl, ?_, ?_, ?_⟩, fun _ => ?_⟩ <;>
      decide +kernel
  obtain ⟨rfl, rfl⟩ := isDuration.unique isDays
  exact absurd isDenoted (by decide +kernel)

end Factum
