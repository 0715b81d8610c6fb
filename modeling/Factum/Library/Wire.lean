/-
This file is about positional binary formats.

Such a format writes a value as bytes that do not describe themselves: the reader
knows from the type what comes next. A reader consumes bytes from the front of its
input, and what has to be shown for a format is one statement for each type: on the
bytes of a value, whatever follows them, the reader returns the value and leaves what
follows. The statements compose along the bytes, so those for a record or a sum are
put together from those for its parts.

Words have a fixed width and the low byte first, lengths are words of eight bytes,
the variant of a sum is a word of four, and an optional value has a tag byte.
-/

import Factum.Library.Stateful
import Factum.Library.Utf8

namespace Wire

open Stateful

/-- Why a reader stops. A reader of a recursive type may run out of fuel. -/
inductive ReadError where
  | endOfInput
  | invalidUtf8
  | invalidBool
  | invalidTag
  | invalidVariant (index : Nat)
  | custom (message : String)
  | fuel
deriving DecidableEq, Repr

/-- A reader consumes bytes from the front of its input. -/
abbrev Reader := EStateM ReadError (List UInt8)

variable {α β : Type}

/-- On the bytes of a value, whatever follows them, the reader returns the value. -/
def Reads (reader : Reader α) (bytes : List UInt8) (value : α) : Prop :=
  ∀ rest, reader (bytes ++ rest) = .ok value rest

theorem Reads.pure (value : α) : Reads (Pure.pure value) [] value := fun _ => rfl

/-- A reader hands its value and the bytes after it to the rest. -/
theorem Reads.bind_run {first : Reader α} {next : α → Reader β} {bytes : List UInt8} {value : α}
    (reads : Reads first bytes value) (rest : List UInt8) :
    (first >>= next) (bytes ++ rest) = next value rest := bind_ok (reads rest)

/-- Readers in sequence read bytes in sequence. -/
theorem Reads.bind {first : Reader α} {next : α → Reader β} {bytes bytes' : List UInt8}
    {value : α} {result : β} (reads : Reads first bytes value)
    (readsNext : Reads (next value) bytes' result) :
    Reads (first >>= next) (bytes ++ bytes') result := by
  intro rest
  rw [List.append_assoc, reads.bind_run]
  exact readsNext rest

theorem Reads.map {reader : Reader α} {bytes : List UInt8} {value : α} (f : α → β)
    (reads : Reads reader bytes value) : Reads (f <$> reader) bytes (f value) := by
  intro rest
  rw [map_run, reads rest]

/-- The last reader of a sequence, followed by a computation without input. -/
theorem Reads.bind_pure {first : Reader α} {bytes : List UInt8} {value : α}
    (reads : Reads first bytes value) (f : α → β) :
    Reads (first >>= fun value => Pure.pure (f value)) bytes (f value) := by
  have whole : Reads (first >>= fun value => Pure.pure (f value)) (bytes ++ []) (f value) :=
    reads.bind (Reads.pure (f value))
  rwa [List.append_nil] at whole

/-! ### Words -/

/-- A number as a word of some width, the low byte first. -/
def littleEndian : Nat → Nat → List UInt8
  | 0, _ => []
  | width + 1, n => UInt8.ofNat n :: littleEndian width (n / 256)

/-- The number that bytes denote, the low byte first. -/
def ofLittleEndian : List UInt8 → Nat
  | [] => 0
  | byte :: rest => byte.toNat + 256 * ofLittleEndian rest

@[simp] theorem length_littleEndian (width : Nat) : ∀ n, (littleEndian width n).length = width := by
  induction width with
  | zero => exact fun _ => rfl
  | succ width inductionHypothesis =>
    intro n
    rw [littleEndian, List.length_cons, inductionHypothesis]

theorem ofLittleEndian_littleEndian (width : Nat) : ∀ n, n < 256 ^ width →
    ofLittleEndian (littleEndian width n) = n := by
  induction width with
  | zero =>
    intro n small
    rw [pow_zero, Nat.lt_one_iff] at small
    rw [small]
    rfl
  | succ width inductionHypothesis =>
    intro n small
    have high : n / 256 < 256 ^ width := by
      rw [Nat.div_lt_iff_lt_mul (by decide), ← pow_succ]
      exact small
    rw [littleEndian, ofLittleEndian, inductionHypothesis _ high, UInt8.toNat_ofNat']
    exact Nat.mod_add_div n 256

/-- Take some bytes. -/
def take (count : Nat) : Reader (List UInt8) := fun bytes =>
  if bytes.length < count then .error .endOfInput bytes
  else .ok (bytes.take count) (bytes.drop count)

theorem reads_take (bytes : List UInt8) : Reads (take bytes.length) bytes bytes := by
  intro rest
  rw [take, if_neg (by simp), List.take_left, List.drop_left]

/-- Read a word. -/
def word (width : Nat) : Reader Nat := ofLittleEndian <$> take width

theorem reads_word {width n : Nat} (small : n < 256 ^ width) :
    Reads (word width) (littleEndian width n) n := by
  have taken := (reads_take (littleEndian width n)).map ofLittleEndian
  rw [length_littleEndian, ofLittleEndian_littleEndian width n small] at taken
  exact taken

/-- Read a word of four bytes. -/
def u32 : Reader UInt32 := UInt32.ofNat <$> word 4

theorem reads_u32 (value : UInt32) : Reads u32 (littleEndian 4 value.toNat) value := by
  have small : value.toNat < 256 ^ 4 := value.toNat_lt
  have read := (reads_word small).map UInt32.ofNat
  rwa [UInt32.ofNat_toNat] at read

/-- Read a word of eight bytes. -/
def u64 : Reader UInt64 := UInt64.ofNat <$> word 8

theorem reads_u64 (value : UInt64) : Reads u64 (littleEndian 8 value.toNat) value := by
  have small : value.toNat < 256 ^ 8 := value.toNat_lt
  have read := (reads_word small).map UInt64.ofNat
  rwa [UInt64.ofNat_toNat] at read

/-- Read a byte. -/
def u8 : Reader UInt8 := UInt8.ofNat <$> word 1

theorem reads_u8 (value : UInt8) : Reads u8 [value] value := by
  have small : value.toNat < 256 ^ 1 := value.toNat_lt
  have read := (reads_word small).map UInt8.ofNat
  have oneByte : littleEndian 1 value.toNat = [value] := by simp [littleEndian]
  rw [UInt8.ofNat_toNat, oneByte] at read
  exact read

/-- A signed word, in two's complement. -/
def signed (width : Nat) : Reader Int := do
  let n ← word width
  return if n < 256 ^ width / 2 then (n : Int) else n - 256 ^ width

/-- A signed number as a word. -/
def littleEndianSigned (width : Nat) (value : Int) : List UInt8 :=
  littleEndian width (value % 256 ^ width).toNat

theorem reads_signed {width : Nat} {value : Int} (positive : 0 < width)
    (low : -(256 ^ width / 2 : Nat) ≤ value) (high : value < (256 ^ width / 2 : Nat)) :
    Reads (signed width) (littleEndianSigned width value) value := by
  have even : 256 ^ width = 2 * (256 ^ width / 2) := by
    obtain ⟨less, rfl⟩ := Nat.exists_eq_succ_of_ne_zero (Nat.pos_iff_ne_zero.mp positive)
    rw [Nat.succ_eq_add_one, pow_succ]
    omega
  have cast : ((256 : Int) ^ width) = ((256 ^ width : Nat) : Int) := by push_cast; rfl
  have small : (value % 256 ^ width).toNat < 256 ^ width := by
    rw [cast]
    omega
  have isValue : (if (value % 256 ^ width).toNat < 256 ^ width / 2 then
      ((value % 256 ^ width).toNat : Int) else (value % 256 ^ width).toNat - 256 ^ width) =
        value := by
    rw [cast]
    by_cases negative : value < 0
    · have shifted : value % (256 ^ width : Nat) = value + (256 ^ width : Nat) := by
        rw [← Int.add_emod_right]
        exact Int.emod_eq_of_lt (by omega) (by omega)
      rw [shifted, if_neg (by omega)]
      omega
    · rw [Int.emod_eq_of_lt (by omega) (by omega), if_pos (by omega)]
      omega
  have read := (reads_word small).bind_pure fun n =>
    if n < 256 ^ width / 2 then (n : Int) else n - 256 ^ width
  rw [isValue] at read
  exact read

/-! ### Booleans, optional values and variants -/

/-- Read a Boolean. -/
def bool : Reader Bool := do
  match ← u8 with
  | 0 => return false
  | 1 => return true
  | _ => throw .invalidBool

/-- The byte of a Boolean. -/
def boolBytes (b : Bool) : List UInt8 := [if b then 1 else 0]

theorem reads_bool (b : Bool) : Reads bool (boolBytes b) b := by
  have tag := reads_u8 (if b then 1 else 0)
  have whole : Reads bool (boolBytes b ++ []) b := tag.bind (by cases b <;> exact Reads.pure _)
  rwa [List.append_nil] at whole

/-- A tag byte, and the value if the tag says that there is one. -/
def option (reader : Reader α) : Reader (Option α) := do
  match ← u8 with
  | 0 => return none
  | 1 => some <$> reader
  | _ => throw .invalidTag

/-- The bytes of an optional value. -/
def optionBytes (encode : α → List UInt8) : Option α → List UInt8
  | none => [0]
  | some value => 1 :: encode value

theorem reads_option {reader : Reader α} {encode : α → List UInt8} {value : Option α}
    (reads : ∀ some, value = .some some → Reads reader (encode some) some) :
    Reads (option reader) (optionBytes encode value) value := by
  cases value with
  | none =>
    have noBytes : Reads (Pure.pure none : Reader (Option α)) [] none := Reads.pure none
    exact (reads_u8 0).bind noBytes
  | some value => exact (reads_u8 1).bind ((reads value rfl).map some)

/-- There is no tag at the end of the input. -/
theorem option_nil (reader : Reader α) : option reader [] = .error .endOfInput [] := rfl

/-- The variant of a sum. -/
def variant (index : Nat) : List UInt8 := littleEndian 4 index

/-- The variant chooses how to read on. -/
theorem reads_variant {next : Nat → Reader β} {bytes : List UInt8} {value : β} (index : Nat)
    (small : index < 2 ^ 32) (reads : Reads (next index) bytes value) :
    Reads (word 4 >>= next) (variant index ++ bytes) value :=
  (reads_word small).bind reads

/-! ### Strings and sequences -/

/-- A sequence of bytes with its length before it. -/
def string : Reader String := do
  let length ← word 8
  let bytes ← take length
  match Utf8.toString? bytes with
  | some text => return text
  | none => throw .invalidUtf8

/-- The bytes of a text, with their number before them. -/
def stringBytes (text : String) : List UInt8 :=
  littleEndian 8 (Utf8.ofString text).length ++ Utf8.ofString text

theorem reads_string {text : String} (small : (stringBytes text).length < 2 ^ 64) :
    Reads string (stringBytes text) text := by
  have lengthSmall : (Utf8.ofString text).length < 256 ^ 8 := by
    rw [stringBytes, List.length_append] at small
    omega
  intro rest
  rw [stringBytes, List.append_assoc, string, (reads_word lengthSmall).bind_run,
    (reads_take (Utf8.ofString text)).bind_run, Utf8.toString?_ofString]
  rfl

/-- A value of another type, as its text. -/
def parsed (read : String → Except String α) : Reader α := do
  match read (← string) with
  | .ok value => return value
  | .error message => throw (.custom message)

theorem reads_parsed {read : String → Except String α} {text : String} {value : α}
    (isText : read text = .ok value) (small : (stringBytes text).length < 2 ^ 64) :
    Reads (parsed read) (stringBytes text) value := by
  intro rest
  rw [parsed, (reads_string small).bind_run]
  simp only [isText]
  rfl

/-- Read a number of items. -/
def many (item : Reader α) : Nat → Reader (List α)
  | 0 => return []
  | count + 1 => do
    let value ← item
    let values ← many item count
    return value :: values

theorem reads_many {item : Reader α} {encode : α → List UInt8} : ∀ {values : List α},
    (∀ value ∈ values, Reads item (encode value) value) →
    Reads (many item values.length) (values.flatMap encode) values := by
  intro values
  induction values with
  | nil => exact fun _ => Reads.pure []
  | cons value rest inductionHypothesis =>
    intro reads
    refine (reads value List.mem_cons_self).bind ?_
    exact (inductionHypothesis fun other member =>
      reads other (List.mem_cons_of_mem _ member)).bind_pure _

/-- Items with their number before them. -/
def seq (item : Reader α) : Reader (List α) := do
  let count ← word 8
  many item count

/-- The bytes of items, with the number of items before them. -/
def seqBytes (encode : α → List UInt8) (values : List α) : List UInt8 :=
  littleEndian 8 values.length ++ values.flatMap encode

/-- Items that take a byte at least are no more than their bytes. -/
theorem length_le_flatMap {encode : α → List UInt8} {values : List α}
    (nonempty : ∀ value ∈ values, encode value ≠ []) :
    values.length ≤ (values.flatMap encode).length := by
  induction values with
  | nil => exact Nat.zero_le _
  | cons value rest inductionHypothesis =>
    have first := List.length_pos_of_ne_nil (nonempty value List.mem_cons_self)
    have later := inductionHypothesis fun other member =>
      nonempty other (List.mem_cons_of_mem _ member)
    rw [List.flatMap_cons, List.length_append, List.length_cons]
    omega

theorem length_item_le (encode : α → List UInt8) {values : List α} {value : α}
    (member : value ∈ values) : (encode value).length ≤ (seqBytes encode values).length := by
  obtain ⟨before, later, rfl⟩ := List.append_of_mem member
  rw [seqBytes, List.flatMap_append, List.flatMap_cons]
  simp only [List.length_append]
  omega

theorem reads_seq {item : Reader α} {encode : α → List UInt8} {values : List α}
    (small : (seqBytes encode values).length < 2 ^ 64)
    (nonempty : ∀ value ∈ values, encode value ≠ [])
    (reads : ∀ value ∈ values, Reads item (encode value) value) :
    Reads (seq item) (seqBytes encode values) values := by
  have countSmall : values.length < 256 ^ 8 := by
    have items := length_le_flatMap nonempty
    rw [seqBytes, List.length_append] at small
    omega
  exact (reads_word countSmall).bind (reads_many reads)

end Wire
