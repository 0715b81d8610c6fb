/-
This file is about reading UTF-8 one character at a time.

A scanner that walks over the bytes of a text classifies a lead byte by its high
bits, takes as many bytes as that class says, and decodes them. The content here
is that on the bytes of a text this recovers the characters: the class of the
lead byte is the length of the encoding, decoding inverts encoding, and a byte
below 128 is a character of its own that occurs in no longer encoding.
-/

import Mathlib.Data.List.Basic
import Mathlib.Data.String.Defs
import Mathlib.Tactic.IntervalCases
import Mathlib.Tactic.NormNum

namespace Utf8

/-- The bytes of a text. -/
def bytes (text : List Char) : List UInt8 := text.flatMap String.utf8EncodeChar

@[simp] theorem bytes_nil : bytes [] = [] := rfl

@[simp] theorem bytes_cons (c : Char) (text : List Char) :
    bytes (c :: text) = String.utf8EncodeChar c ++ bytes text := rfl

@[simp] theorem bytes_append (first second : List Char) :
    bytes (first ++ second) = bytes first ++ bytes second := List.flatMap_append

/-- The length of the sequence that a lead byte announces. -/
def width? (lead : UInt8) : Option Nat :=
  if lead < 0x80 then some 1
  else if lead &&& 0xE0 == 0xC0 then some 2
  else if lead &&& 0xF0 == 0xE0 then some 3
  else if lead &&& 0xF8 == 0xF0 then some 4
  else none

/-- The character that a sequence of bytes starts with. -/
def decode? (sequence : List UInt8) : Option Char :=
  ByteArray.utf8DecodeChar? sequence.toByteArray 0

/-! ### One character -/

/-- A character below 128 is one byte, its code. -/
theorem encode_ascii {c : Char} (ascii : c.toNat < 128) :
    String.utf8EncodeChar c = [UInt8.ofNat c.toNat] := by
  have code : c.val.toNat ≤ 0x7f := by
    rw [Char.toNat_val]
    omega
  unfold String.utf8EncodeChar
  exact if_pos code

theorem toNat_ofNat_of_lt {n : Nat} (small : n < 256) : (UInt8.ofNat n).toNat = n := by
  rw [UInt8.toNat_ofNat']
  exact Nat.mod_eq_of_lt small

/-- The four shapes of an encoding, with the ranges of its bytes. -/
theorem encode_shape (c : Char) :
    (c.toNat < 128 ∧ String.utf8EncodeChar c = [UInt8.ofNat c.toNat]) ∨
    (128 ≤ c.toNat ∧ ∃ lead < 32, ∃ tail < 64, String.utf8EncodeChar c =
      [UInt8.ofNat (lead + 0xC0), UInt8.ofNat (tail + 0x80)]) ∨
    (128 ≤ c.toNat ∧ ∃ lead < 16, ∃ second < 64, ∃ tail < 64, String.utf8EncodeChar c =
      [UInt8.ofNat (lead + 0xE0), UInt8.ofNat (second + 0x80), UInt8.ofNat (tail + 0x80)]) ∨
    (128 ≤ c.toNat ∧ ∃ lead < 8, ∃ second < 64, ∃ third < 64, ∃ tail < 64,
      String.utf8EncodeChar c =
        [UInt8.ofNat (lead + 0xF0), UInt8.ofNat (second + 0x80), UInt8.ofNat (third + 0x80),
          UInt8.ofNat (tail + 0x80)]) := by
  have code : c.toNat = c.val.toNat := Char.toNat_val.symm
  by_cases one : c.val.toNat ≤ 0x7f
  · exact Or.inl ⟨by omega, encode_ascii (by omega)⟩
  · by_cases two : c.val.toNat ≤ 0x7ff
    · refine Or.inr (Or.inl ⟨by omega, c.val.toNat / 64 % 0x20, by omega,
        c.val.toNat % 0x40, by omega, ?_⟩)
      simp only [String.utf8EncodeChar, if_neg one, if_pos two]
    · by_cases three : c.val.toNat ≤ 0xffff
      · refine Or.inr (Or.inr (Or.inl ⟨by omega, c.val.toNat / 4096 % 0x10, by omega,
          c.val.toNat / 64 % 0x40, by omega, c.val.toNat % 0x40, by omega, ?_⟩))
        simp only [String.utf8EncodeChar, if_neg one, if_neg two, if_pos three]
      · refine Or.inr (Or.inr (Or.inr ⟨by omega, c.val.toNat / 262144 % 0x08, by omega,
          c.val.toNat / 4096 % 0x40, by omega, c.val.toNat / 64 % 0x40, by omega,
          c.val.toNat % 0x40, by omega, ?_⟩))
        simp only [String.utf8EncodeChar, if_neg one, if_neg two, if_neg three]

theorem width?_two : ∀ lead < 32, width? (UInt8.ofNat (lead + 0xC0)) = some 2 := by decide

theorem width?_three : ∀ lead < 16, width? (UInt8.ofNat (lead + 0xE0)) = some 3 := by decide

theorem width?_four : ∀ lead < 8, width? (UInt8.ofNat (lead + 0xF0)) = some 4 := by decide

/-- The lead byte of a character announces the length of its encoding. -/
theorem width?_encode (c : Char) :
    ∃ lead rest, String.utf8EncodeChar c = lead :: rest ∧
      width? lead = some (String.utf8EncodeChar c).length := by
  rcases encode_shape c with ⟨ascii, shape⟩ | ⟨_, lead, bound, tail, _, shape⟩ |
      ⟨_, lead, bound, second, _, tail, _, shape⟩ |
      ⟨_, lead, bound, second, _, third, _, tail, _, shape⟩
  · refine ⟨_, _, shape, ?_⟩
    have small : UInt8.ofNat c.toNat < 0x80 := by
      rw [UInt8.lt_iff_toNat_lt, toNat_ofNat_of_lt (by omega)]
      exact ascii
    rw [shape]
    simp [width?, small]
  · exact ⟨_, _, shape, by rw [shape]; exact width?_two lead bound⟩
  · exact ⟨_, _, shape, by rw [shape]; exact width?_three lead bound⟩
  · exact ⟨_, _, shape, by rw [shape]; exact width?_four lead bound⟩

/-- Decoding the encoding of a character gives the character. -/
@[simp] theorem decode?_encode (c : Char) : decode? (String.utf8EncodeChar c) = some c := by
  have decoded := ByteArray.utf8DecodeChar?_utf8EncodeChar_append (b := ByteArray.empty) (c := c)
  rwa [ByteArray.append_empty] at decoded

/-- Every byte of a character from 128 on is at least 128. -/
theorem le_of_mem_encode {c : Char} (wide : 128 ≤ c.toNat) {byte : UInt8}
    (member : byte ∈ String.utf8EncodeChar c) : 128 ≤ byte.toNat := by
  rcases encode_shape c with ⟨ascii, _⟩ | ⟨_, lead, _, tail, _, shape⟩ |
      ⟨_, lead, _, second, _, tail, _, shape⟩ |
      ⟨_, lead, _, second, _, third, _, tail, _, shape⟩
  · omega
  all_goals
    rw [shape] at member
    simp only [List.mem_cons, List.not_mem_nil, or_false] at member
    rcases member with rfl | member
    · rw [toNat_ofNat_of_lt (by omega)]
      omega
  · subst member
    rw [toNat_ofNat_of_lt (by omega)]
    omega
  · rcases member with rfl | rfl <;> rw [toNat_ofNat_of_lt (by omega)] <;> omega
  · rcases member with rfl | rfl | rfl <;> rw [toNat_ofNat_of_lt (by omega)] <;> omega

/-- What decoding returns encodes to the start of the sequence. -/
theorem encode_of_decode? {sequence : List UInt8} {c : Char}
    (decoded : decode? sequence = some c) :
    String.utf8EncodeChar c = sequence.take (String.utf8EncodeChar c).length := by
  have extracted := String.toByteArray_utf8EncodeChar_of_utf8DecodeChar?_eq_some decoded
  have lists := congrArg (fun array : ByteArray => array.data.toList) extracted
  simpa using lists

/-- Decoding a sequence whose first byte is at least 128 gives a character from 128 on. -/
theorem wide_of_decode? {lead : UInt8} {rest : List UInt8} {c : Char}
    (high : 128 ≤ lead.toNat) (decoded : decode? (lead :: rest) = some c) : 128 ≤ c.toNat := by
  by_contra narrow
  have ascii : c.toNat < 128 := by omega
  have shape := encode_of_decode? decoded
  rw [encode_ascii ascii] at shape
  simp only [List.length_cons, List.length_nil, Nat.zero_add, List.take_succ_cons, List.take_zero,
    List.cons.injEq, and_true] at shape
  have value := congrArg UInt8.toNat shape
  rw [toNat_ofNat_of_lt (by omega)] at value
  omega

/-! ### Whole texts -/

theorem encode_ne_nil (c : Char) : String.utf8EncodeChar c ≠ [] := by
  obtain ⟨lead, rest, shape, _⟩ := width?_encode c
  rw [shape]
  exact List.cons_ne_nil _ _

/-! ### Strings -/

/-- The bytes of a string. -/
def ofString (s : String) : List UInt8 := bytes s.toList

/-- The string that some bytes encode. -/
def toString? (code : List UInt8) : Option String := String.fromUTF8? code.toByteArray

theorem ofString_toByteArray (s : String) : (ofString s).toByteArray = s.toByteArray := by
  have encoded := String.toByteArray_ofList (l := s.toList)
  rw [String.ofList_toList] at encoded
  exact encoded.symm

/-- Decoding inverts encoding. -/
@[simp] theorem toString?_ofString (s : String) : toString? (ofString s) = some s := by
  have valid : ((ofString s).toByteArray).IsValidUTF8 := by
    rw [ofString_toByteArray]
    exact s.isValidUTF8
  unfold toString? String.fromUTF8?
  rw [dif_pos valid]
  exact congrArg some (String.toByteArray_inj.mp (ofString_toByteArray s))

theorem ofString_injective : Function.Injective ofString := by
  intro first second same
  rw [← Option.some_inj, ← toString?_ofString first, same, toString?_ofString]

end Utf8
