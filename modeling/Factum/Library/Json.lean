/-
This file is a small library of JSON values and their texts.

A value is a tree whose numbers are integers or members of a type of floating-point
numbers. The fields of an object are a list in the order in which they are written:
a record writes them in the order of its declaration, a map in the order of its
keys, which is the order that `object` sorts them into. An object built from fields
with distinct keys determines the value of each.
-/

import Mathlib.Data.List.Sort
import Mathlib.Data.String.Basic

/-- A JSON value. The numbers that are not integers are a type of their own. -/
inductive Json (D : Type) where
  | null
  | bool (b : Bool)
  | int (n : Int)
  | float (x : D)
  | str (text : String)
  | arr (items : List (Json D))
  | obj (fields : List (String × Json D))

namespace Json

variable {D : Type}

/-! ### Objects -/

/-- An object with its fields in the order of their keys. -/
def object (fields : List (String × Json D)) : Json D :=
  .obj (fields.insertionSort fun a b => a.1 ≤ b.1)

/-- The value of a field; a value that is no object has none. -/
def get? (value : Json D) (key : String) : Option (Json D) :=
  match value with
  | .obj fields => (fields.find? (·.1 == key)).map Prod.snd
  | _ => none

/-- The text of a string value. -/
def asStr? : Json D → Option String
  | .str text => some text
  | _ => none

/-- Objects that are equal agree on a field that both were built with. -/
theorem eq_of_object_eq {fields fields' : List (String × Json D)}
    (same : object fields = object fields') (distinct : (fields'.map Prod.fst).Nodup)
    (key : String) {value value' : Json D} (member : (key, value) ∈ fields)
    (member' : (key, value') ∈ fields') : value = value' := by
  have sorted : fields.insertionSort (fun a b => a.1 ≤ b.1) =
      fields'.insertionSort fun a b => a.1 ≤ b.1 := Json.obj.inj same
  have perm : fields.Perm fields' :=
    (List.perm_insertionSort _ fields).symm.trans (sorted ▸ List.perm_insertionSort _ fields')
  have pair : (key, value) = (key, value') :=
    List.inj_on_of_nodup_map distinct (perm.mem_iff.mp member) member' rfl
  exact (Prod.mk.inj pair).2

/-- A field of an object has the value that it was built with. -/
theorem get?_object {fields : List (String × Json D)} (distinct : (fields.map Prod.fst).Nodup)
    {key : String} {value : Json D} (member : (key, value) ∈ fields) :
    (object fields).get? key = some value := by
  have perm := List.perm_insertionSort (fun a b : String × Json D => a.1 ≤ b.1) fields
  have distinctSorted := (perm.map Prod.fst).nodup_iff.mpr distinct
  have memberSorted := perm.mem_iff.mpr member
  show ((fields.insertionSort _).find? (·.1 == key)).map Prod.snd = some value
  cases found : (fields.insertionSort fun a b => a.1 ≤ b.1).find? (·.1 == key) with
  | none => exact absurd (List.find?_eq_none.mp found _ memberSorted) (by simp)
  | some field =>
    have sameKey := List.find?_some found
    have sameField : field = (key, value) := List.inj_on_of_nodup_map distinctSorted
      (List.mem_of_find?_eq_some found) memberSorted (eq_of_beq sameKey)
    rw [sameField]
    rfl

/-! ### Texts -/

/-- A digit of a hexadecimal numeral. -/
def hexDigit (n : Nat) : Char :=
  if n < 10 then Char.ofNat (48 + n) else Char.ofNat (87 + n)

/-- A character of a string with its escape: quotes, backslashes and control characters. -/
def escapeChar (c : Char) : List Char :=
  if c = '"' then ['\\', '"']
  else if c = '\\' then ['\\', '\\']
  else if c.toNat = 8 then ['\\', 'b']
  else if c.toNat = 12 then ['\\', 'f']
  else if c = '\n' then ['\\', 'n']
  else if c = '\r' then ['\\', 'r']
  else if c = '\t' then ['\\', 't']
  else if c.toNat < 32 then
    ['\\', 'u', '0', '0', hexDigit (c.toNat / 16), hexDigit (c.toNat % 16)]
  else [c]

/-- A string between its quotes. -/
def strText (text : String) : List Char := '"' :: text.toList.flatMap escapeChar ++ ['"']

section Text

variable (floatText : D → String)

mutual

/-- The text of a value, without spaces. -/
def text : Json D → List Char
  | .null => "null".toList
  | .bool b => if b then "true".toList else "false".toList
  | .int n => (toString n).toList
  | .float x => (floatText x).toList
  | .str s => strText s
  | .arr items => '[' :: itemsText items ++ [']']
  | .obj fields => '\x7b' :: fieldsText fields ++ ['\x7d']

/-- Values with a comma between two. -/
def itemsText : List (Json D) → List Char
  | [] => []
  | [item] => text item
  | item :: rest => text item ++ ',' :: itemsText rest

/-- Fields with a comma between two. -/
def fieldsText : List (String × Json D) → List Char
  | [] => []
  | [(key, value)] => strText key ++ ':' :: text value
  | (key, value) :: rest => strText key ++ ':' :: text value ++ ',' :: fieldsText rest

end

/-- The text of a value as a string. -/
def render (value : Json D) : String := String.ofList (text floatText value)

end Text

end Json
