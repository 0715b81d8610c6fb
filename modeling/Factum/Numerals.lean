/-
This file is about the numbers in printed texts.

A decimal prints as an optional minus sign, digits, and a point with as many digits
after it as its scale says. A duration prints as its nanoseconds. Each is read back to
the number that was printed, as long as the number is in the range of the reader.
-/

import Mathlib.Data.List.TakeDrop
import Factum.Parser
import Factum.Scan
import Factum.Serialize

namespace Factum

open Lexer

/-! ### Digits -/

theorem all_isDigit_toDigits (n : Nat) : (Nat.toDigits 10 n).all Char.isDigit = true :=
  List.all_eq_true.mpr fun _ member =>
    Nat.isDigit_of_mem_toDigits (by decide) (by decide) member

theorem isWhitespace_of_isDigit {c : Char} (digit : c.isDigit = true) :
    isWhitespace c = false := by
  have range : (decide (48 ≤ c.toNat) && decide (c.toNat ≤ 57)) = true := digit
  simp only [Bool.and_eq_true, decide_eq_true_eq] at range
  simp only [isWhitespace, Bool.or_eq_false_iff, Bool.and_eq_false_imp, beq_eq_false_iff_ne,
    decide_eq_true_eq, decide_eq_false_iff_not]
  omega

/-- A text without spaces at its ends is not changed by trimming. -/
theorem trim_of_plain {text : List Char} (plain : ∀ c ∈ text, isWhitespace c = false) :
    trim text = text := by
  have keeps : ∀ l : List Char, (∀ c ∈ l, isWhitespace c = false) →
      l.dropWhile isWhitespace = l := by
    intro l plain
    cases l with
    | nil => rfl
    | cons c rest =>
      rw [List.dropWhile_cons_of_neg (by simp [plain c List.mem_cons_self])]
  have backwards : ∀ c ∈ text.reverse, isWhitespace c = false :=
    fun c member => plain c (List.mem_reverse.mp member)
  rw [trim, keeps text plain, keeps text.reverse backwards, List.reverse_reverse]

/-! ### Decimals -/

/-- The digits of a decimal before and after its point. -/
theorem decDigits_eq (absolute scale : Nat) : ∃ whole fraction : List Char,
    decDigits absolute scale = whole ++ pointed fraction ∧ whole ≠ [] ∧
      whole.all Char.isDigit = true ∧ fraction.all Char.isDigit = true ∧
      fraction.length = scale ∧ Nat.ofDigitChars 10 (whole ++ fraction) 0 = absolute := by
  have digits := List.all_eq_true.mp (all_isDigit_toDigits absolute)
  have value := Nat.ofDigitChars_ten_toDigits (n := absolute)
  unfold decDigits
  by_cases isWhole : scale = 0
  · refine ⟨Nat.toDigits 10 absolute, [], ?_, Nat.toDigits_ne_nil, all_isDigit_toDigits _, rfl,
      isWhole.symm, by rwa [List.append_nil]⟩
    rw [if_pos isWhole]
    exact (List.append_nil _).symm
  · by_cases short : (Nat.toDigits 10 absolute).length ≤ scale
    · refine ⟨['0'], List.replicate (scale - (Nat.toDigits 10 absolute).length) '0' ++
        Nat.toDigits 10 absolute, ?_, by simp, rfl, ?_, ?_, ?_⟩
      · rw [if_neg isWhole, if_pos short, pointed, if_neg (by simp [Nat.toDigits_ne_nil])]
        simp
      · rw [List.all_append, all_isDigit_toDigits, Bool.and_true, List.all_replicate]
        simp
      · rw [List.length_append, List.length_replicate]
        omega
      · rw [Nat.ofDigitChars_append, Nat.ofDigitChars_append, Nat.ofDigitChars_replicate_zero,
          Nat.ofDigitChars_cons, Nat.ofDigitChars_nil]
        simp
    · refine ⟨(Nat.toDigits 10 absolute).take ((Nat.toDigits 10 absolute).length - scale),
        (Nat.toDigits 10 absolute).drop ((Nat.toDigits 10 absolute).length - scale), ?_, ?_, ?_,
        ?_, ?_, by rwa [List.take_append_drop]⟩
      · have nonempty : ¬ ((Nat.toDigits 10 absolute).drop
            ((Nat.toDigits 10 absolute).length - scale)).isEmpty = true := by
          rw [List.isEmpty_iff, List.drop_eq_nil_iff]
          omega
        rw [if_neg isWhole, if_neg short, pointed, if_neg nonempty]
      · intro empty
        rw [List.take_eq_nil_iff] at empty
        rcases empty with none | none
        · omega
        · exact Nat.toDigits_ne_nil none
      · exact List.all_eq_true.mpr fun c member => digits c (List.mem_of_mem_take member)
      · exact List.all_eq_true.mpr fun c member => digits c (List.mem_of_mem_drop member)
      · rw [List.length_drop]
        omega

/-- The sign of a printed integer. -/
def signOf (value : Int) : List Char := if value < 0 then ['-'] else []

/-- The shape of a printed decimal. -/
theorem decToString_eq (mantissa : I128) (scale : UInt8) : ∃ whole fraction : List Char,
    decToString mantissa scale =
      String.ofList (signOf mantissa.val ++ whole ++ pointed fraction) ∧ whole ≠ [] ∧
      whole.all Char.isDigit = true ∧ fraction.all Char.isDigit = true ∧
      fraction.length = scale.toNat ∧
      Nat.ofDigitChars 10 (whole ++ fraction) 0 = mantissa.val.natAbs := by
  obtain ⟨whole, fraction, shape, rest⟩ := decDigits_eq mantissa.val.natAbs scale.toNat
  refine ⟨whole, fraction, ?_, rest⟩
  rw [decToString, shape, signOf]
  split_ifs <;> simp

theorem splitPoint_pointed {whole fraction : List Char} (digits : whole.all Char.isDigit = true) :
    splitPoint (whole ++ pointed fraction) = (whole, fraction) := by
  have noPoint : ∀ c ∈ whole, (c != '.') = true := by
    intro c member
    have digit := List.all_eq_true.mp digits c member
    rw [bne_iff_ne]
    rintro rfl
    cases digit
  have spans : (whole ++ pointed fraction).span (· != '.') = (whole, pointed fraction) := by
    rw [List.span_eq_takeWhile_dropWhile, List.takeWhile_append_of_pos noPoint,
      List.dropWhile_append_of_pos noPoint]
    cases fraction with
    | nil => simp
    | cons c rest => simp
  rw [splitPoint, spans]
  cases fraction with
  | nil => rfl
  | cons c rest => rfl

theorem splitSign_signOf {value : Int} {whole text : List Char} (nonempty : whole ≠ [])
    (digits : whole.all Char.isDigit = true) :
    splitSign (signOf value ++ whole ++ text) = (if value < 0 then -1 else 1, whole ++ text) := by
  unfold signOf
  split_ifs
  · rfl
  · obtain ⟨d, rest, rfl⟩ := List.exists_cons_of_ne_nil nonempty
    have digit : d.isDigit = true := List.all_eq_true.mp digits d List.mem_cons_self
    rw [List.nil_append, List.cons_append, splitSign]
    · intro r same
      rw [(List.cons.inj same).1] at digit
      cases digit
    · intro r same
      rw [(List.cons.inj same).1] at digit
      cases digit

/-- A decimal is read back from the text it prints. -/
theorem decFromStr_decToString {F : Type} {mantissa : I128} (scale : UInt8)
    (fits : mantissa.val.natAbs ≤ i128Max) :
    (Literal.decFromStr (decToString mantissa scale) : Except (CoreError F) Literal) =
      .ok (.dec mantissa scale) := by
  obtain ⟨whole, fraction, shape, nonempty, wholeDigits, fractionDigits, length, value⟩ :=
    decToString_eq mantissa scale
  have plainDigits : ∀ c ∈ whole ++ pointed fraction, isWhitespace c = false := by
    intro c member
    rcases List.mem_append.mp member with inWhole | inPointed
    · exact isWhitespace_of_isDigit (List.all_eq_true.mp wholeDigits c inWhole)
    · rcases mem_pointed inPointed with rfl | inFraction
      · rfl
      · exact isWhitespace_of_isDigit (List.all_eq_true.mp fractionDigits c inFraction)
  have trimmed : trim (decToString mantissa scale).toList =
      signOf mantissa.val ++ whole ++ pointed fraction := by
    rw [shape, String.toList_ofList]
    refine trim_of_plain fun c member => ?_
    rw [List.append_assoc, List.mem_append] at member
    rcases member with inSign | inDigits
    · unfold signOf at inSign
      split_ifs at inSign
      · rw [List.mem_singleton.mp inSign]
        rfl
      · cases inSign
    · exact plainDigits c inDigits
  have signed : splitSign (signOf mantissa.val ++ whole ++ pointed fraction) =
      (if mantissa.val < 0 then -1 else 1, whole ++ pointed fraction) :=
    splitSign_signOf nonempty wholeDigits
  have scaled : UInt8.ofNat fraction.length = scale := by
    rw [length, UInt8.ofNat_toNat]
  have product : (mantissa.val.natAbs : Int) * (if mantissa.val < 0 then -1 else 1) =
      mantissa.val := by
    split_ifs <;> omega
  have inRange : I128.ofInt? mantissa.val = some mantissa := by
    rw [I128.ofInt?, dif_pos mantissa.property]
  unfold Literal.decFromStr
  simp only [trimmed, signed, splitPoint_pointed wholeDigits, wholeDigits, fractionDigits, value,
    product, scaled, inRange]
  rw [if_neg (by simp [nonempty]), if_neg (by simp), if_neg (Nat.not_lt.mpr fits)]

/-! ### Unsigned integers -/

theorem le_ofDigitChars (digits : List Char) (start : Nat) :
    start ≤ Nat.ofDigitChars 10 digits start := by
  induction digits generalizing start with
  | nil => rw [Nat.ofDigitChars_nil]
  | cons c rest inductionHypothesis =>
    rw [Nat.ofDigitChars_cons]
    have := inductionHypothesis (10 * start + (c.toNat - '0'.toNat))
    omega

/-- Digits are read as the number they denote when it is below the bound. -/
theorem parseDigits_eq {bound : Nat} (digits : List Char) (start : Nat)
    (areDigits : digits.all Char.isDigit = true)
    (fits : Nat.ofDigitChars 10 digits start < bound) :
    parseDigits bound digits start = .ok (Nat.ofDigitChars 10 digits start) := by
  induction digits generalizing start with
  | nil => rw [parseDigits, Nat.ofDigitChars_nil]
  | cons c rest inductionHypothesis =>
    rw [List.all_cons, Bool.and_eq_true] at areDigits
    rw [Nat.ofDigitChars_cons] at fits ⊢
    have below := le_ofDigitChars rest (10 * start + (c.toNat - '0'.toNat))
    rw [parseDigits, areDigits.1, Nat.mul_comm start 10, if_neg (by simp),
      if_neg (by omega : ¬ bound ≤ 10 * start + (c.toNat - '0'.toNat))]
    exact inductionHypothesis _ areDigits.2 fits

/-- What digits are read as is the number they denote, and below the bound. -/
theorem parseDigits_ok {bound n : Nat} (digits : List Char) (start : Nat) (below : start < bound)
    (read : parseDigits bound digits start = .ok n) :
    n = Nat.ofDigitChars 10 digits start ∧ n < bound := by
  induction digits generalizing start with
  | nil =>
    cases read
    exact ⟨Nat.ofDigitChars_nil.symm, below⟩
  | cons c rest inductionHypothesis =>
    rw [parseDigits] at read
    split_ifs at read with _ inRange
    rw [Nat.ofDigitChars_cons, Nat.mul_comm 10 start]
    exact inductionHypothesis _ (Nat.lt_of_not_le inRange) read

/-- A numeral without a sign is read digit by digit. -/
theorem parseUnsigned_digits (bound n : Nat) :
    parseUnsigned bound (decimal n) = parseDigits bound (decimal n) 0 := by
  obtain ⟨d, rest, shape⟩ := List.exists_cons_of_ne_nil (Nat.toDigits_ne_nil (n := n) (b := 10))
  have digit : d.isDigit = true := by
    refine List.all_eq_true.mp (all_isDigit_toDigits n) d ?_
    rw [shape]
    exact List.mem_cons_self
  rw [decimal, shape]
  unfold parseUnsigned
  split
  · rename_i same
    cases same
  · rename_i same
    rw [(List.cons.inj same).1] at digit
    cases digit
  · rename_i same
    rw [(List.cons.inj same).1] at digit
    cases digit
  · rfl

theorem parseUnsigned_decimal {bound n : Nat} (fits : n < bound) :
    parseUnsigned bound (decimal n) = .ok n := by
  have value := Nat.ofDigitChars_ten_toDigits (n := n)
  rw [parseUnsigned_digits, decimal,
    parseDigits_eq _ _ (all_isDigit_toDigits n) (by rwa [value]), value]

/-- A numeral that is not below the bound is not read. -/
theorem parseUnsigned_decimal_ne {bound n : Nat} (positive : 0 < bound) (large : bound ≤ n)
    (m : Nat) : parseUnsigned bound (decimal n) ≠ .ok m := by
  intro read
  rw [parseUnsigned_digits] at read
  obtain ⟨isNumber, inRange⟩ := parseDigits_ok _ 0 positive read
  rw [decimal, Nat.ofDigitChars_ten_toDigits] at isNumber
  omega

/-! ### Durations -/

/-- The content of a printed duration. -/
def durationText (d : Duration) : List Char := decimal d.asNanos ++ "ns".toList

/-- The parts of reading a duration. -/
theorem parseDuration_eq (text : String) : parseDuration text =
    if (trim text.toList).isEmpty then .error "empty duration"
    else match stripSuffix "ns".toList (trim text.toList) with
      | some rest => (parseUnsigned (2 ^ 64) rest).map fun ns => .fromNanos (UInt64.ofNat ns)
      | none => (parseUnsigned (2 ^ 64) ((trim text.toList).takeWhile Char.isDigit)).bind fun num =>
        match unitSecs ((trim text.toList).dropWhile Char.isDigit) with
        | some secs => .ok (.fromSecs (UInt64.ofNat num * secs))
        | none => .error ("unknown duration unit: " ++
            String.ofList ((trim text.toList).dropWhile Char.isDigit)) := by
  unfold parseDuration
  dsimp only
  by_cases isEmpty : (trim text.toList).isEmpty
  · rw [if_pos isEmpty, if_pos isEmpty]
    rfl
  · rw [if_neg isEmpty, if_neg isEmpty]
    cases stripSuffix "ns".toList (trim text.toList) with
    | some rest => cases parseUnsigned (2 ^ 64) rest <;> rfl
    | none => rfl

theorem Duration.fromNanos_asNanos {d : Duration} (fits : d.asNanos < 2 ^ 64) :
    Duration.fromNanos (UInt64.ofNat d.asNanos) = d := by
  obtain ⟨secs, nanos, inSecond⟩ := d
  have value : (UInt64.ofNat (Duration.asNanos ⟨secs, nanos, inSecond⟩)).toNat =
      secs.toNat * 1000000000 + nanos := by
    rw [UInt64.toNat_ofNat_of_lt' fits]
    rfl
  have seconds : UInt64.ofNat (Duration.asNanos ⟨secs, nanos, inSecond⟩) / 1000000000 = secs := by
    rw [← UInt64.toNat_inj, UInt64.toNat_div, value]
    show (secs.toNat * 1000000000 + nanos) / 1000000000 = secs.toNat
    omega
  rw [Duration.fromNanos, seconds]
  congr 1
  refine Fin.ext ?_
  show (UInt64.ofNat (Duration.asNanos ⟨secs, nanos, inSecond⟩)).toNat % 1000000000 = nanos
  rw [value]
  omega

/-- The text of a duration is read as its number of nanoseconds. -/
theorem parseDuration_durationText_eq (d : Duration) :
    parseDuration (String.ofList (durationText d)) =
      (parseUnsigned (2 ^ 64) (decimal d.asNanos)).map fun ns => .fromNanos (UInt64.ofNat ns) := by
  have plain : ∀ c ∈ durationText d, isWhitespace c = false := by
    intro c member
    rcases List.mem_append.mp member with inDigits | inUnit
    · exact isWhitespace_of_isDigit (List.all_eq_true.mp (all_isDigit_toDigits _) c inDigits)
    · have inUnit : c ∈ ['n', 's'] := inUnit
      simp only [List.mem_cons, List.not_mem_nil, or_false] at inUnit
      rcases inUnit with rfl | rfl <;> rfl
  have stripped : stripSuffix "ns".toList (durationText d) = some (decimal d.asNanos) := by
    rw [stripSuffix, durationText, if_pos (by simp), List.length_append, Nat.add_sub_cancel,
      List.take_left]
  have nonempty : ¬ (durationText d).isEmpty = true := by
    simp [durationText]
  rw [parseDuration, String.toList_ofList, trim_of_plain plain]
  simp only [if_neg nonempty, stripped]
  cases parseUnsigned (2 ^ 64) (decimal d.asNanos) with
  | ok ns => rfl
  | error message => rfl

/-- A duration is read back from the text it prints. -/
theorem parseDuration_durationText {d : Duration} (fits : d.asNanos < 2 ^ 64) :
    parseDuration (String.ofList (durationText d)) = .ok d := by
  rw [parseDuration_durationText_eq, parseUnsigned_decimal fits]
  show Except.ok (Duration.fromNanos (UInt64.ofNat d.asNanos)) = Except.ok d
  rw [Duration.fromNanos_asNanos fits]

/-- A duration of more nanoseconds than are read is not read back. -/
theorem parseDuration_durationText_ne {d : Duration} (large : 2 ^ 64 ≤ d.asNanos)
    (d' : Duration) : parseDuration (String.ofList (durationText d)) ≠ .ok d' := by
  rw [parseDuration_durationText_eq]
  intro read
  cases isRead : parseUnsigned (2 ^ 64) (decimal d.asNanos) with
  | ok n => exact parseUnsigned_decimal_ne (by decide) large n isRead
  | error message =>
    rw [isRead] at read
    cases read

end Factum
