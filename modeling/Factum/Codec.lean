/-
This file embeds the packed codec: nodes as vectors of 24 numbers in single precision.

The first number is one and tells how a vector was scaled. The others hold the index of the
head, the number and the kinds of the arguments, twelve characters of the text of each of
three arguments, two to a number, and the scores. The decoder divides every number by the
first and rounds. The benchmark may normalise a vector and shift it before it is decoded.
-/

import Factum.Library.Binary32
import Factum.Calibration
import Factum.Morphemes
import Factum.Packed

namespace Factum

/-- Scores in single precision. -/
instance : F32 Binary32 where
  lit m k := Binary32.ofRat (mkRat m (10 ^ k))
  le a b := decide (a.value ≤ b.value)
  lt a b := decide (a.value < b.value)
  eq a b := decide (a = b)
  add a b := a + b
  sub a b := a - b
  mul a b := a * b
  max a b := if a.value ≤ b.value then b else a
  abs a := Binary32.ofRat |a.value|

/-- The errors of the codec: those of a term, and a vector of another dimension. -/
inductive CodecError where
  | term (error : LatentError)
  | encodeError (message : String)
  | dimensionMismatch (expected actual : Nat)
deriving DecidableEq, Repr

/-- The `Display` text of an error of the codec. -/
def CodecError.display : CodecError → String
  | .term (.decodeError message) => "decode error: " ++ message
  | .encodeError message => "encode error: " ++ message
  | .dimensionMismatch expected actual =>
    "dimension mismatch: expected " ++ toString expected ++ ", got " ++ toString actual

/-- A computation on a term as one of the codec. -/
def ofTerm {α : Type} : Except (Stop LatentError) α → Except (Stop CodecError) α
  | .ok value => .ok value
  | .error (.fail error) => .error (.fail (.term error))
  | .error .panic => .error .panic
  | .error .fuel => .error .fuel

/-! ### Vectors -/

/-- Continuous thought vector. -/
structure ThoughtVector where
  data : List Binary32
  dim : Nat
deriving DecidableEq

namespace ThoughtVector

/-- A vector of zeros. -/
def zeros (dim : Nat) : ThoughtVector := ⟨List.replicate dim (F32.lit 0 0), dim⟩

/-- A vector of these numbers. -/
def fromVec (data : List Binary32) : ThoughtVector := ⟨data, data.length⟩

/-- The L2 norm. -/
def l2Norm (vector : ThoughtVector) : Binary32 :=
  ((vector.data.map fun v => v * v).foldl (· + ·) (F32.lit 0 0)).root

/-- Normalize to unit length; a vector of zeros stays as it is. -/
def normalize (vector : ThoughtVector) : ThoughtVector :=
  let norm := vector.l2Norm
  if F32.lt norm (F32.lit 1 10) then vector else fromVec (vector.data.map (· / norm))

end ThoughtVector

namespace PackedCodec

/-- Total dimensionality of the thought vector. -/
def packedCodecDim : Nat := 24

/-- Charset for the encoding of strings: the indices from 1 on. -/
def charset : List Char :=
  "ABCDEFGHIJKLMNOPQRSTUVWXYZabcdefghijklmnopqrstuvwxyz0123456789-.()".toList

/-- Base for the encoding of characters. -/
def base : Nat := 67

/-- Maximum value for two characters. -/
def maxEncoded : Binary32 := Binary32.ofNat (base * base - 1)

/-- Approximate number of morphemes. -/
def maxMorphemes : Binary32 := F32.lit 300 0

/-- The largest packed code of the arguments. -/
def maxPacked : Binary32 := F32.lit 5323 0

/-- Where the scale reference is. -/
def offScaleRef : Nat := 0

/-- Where the index of the head is. -/
def offHeadIndex : Nat := 1

/-- Where the number and the kinds of the arguments are. -/
def offPackedArgs : Nat := 2

/-- How many numbers an argument takes. -/
def argFloats : Nat := 6

/-- Where the number of named arguments is. -/
def offNamed : Nat := 21

/-- Where the confidence is. -/
def offConfidence : Nat := 22

/-- Where the authority is. -/
def offAuthority : Nat := 23

/-- Where the characters of an argument begin. -/
def offArg : Nat → Nat
  | 0 => 3
  | 1 => 9
  | _ => 15

/-! ### Characters -/

/-- The index of a character; zero for the sentinel and for one outside the charset. -/
def charToIdx (c : Char) : Nat :=
  if c = '\x00' then 0
  else
    match charset.findIdx? (· == c) with
    | some i => i + 1
    | none => 0

/-- The character of an index, or a dot beyond the charset. -/
def idxToChar (idx : Nat) : Char :=
  if idx = 0 then '\x00'
  else if charset.length < idx then '.'
  else charset.getD (idx - 1) '.'

/-- Two characters as one number. -/
def encode2Chars (c1 c2 : Char) : Binary32 :=
  Binary32.ofNat (charToIdx c1 * base + charToIdx c2) / maxEncoded

/-- The two characters of a number. -/
def decode2Chars (f : Binary32) : Char × Char :=
  let value := ((f.clamp (F32.lit 0 0) (F32.lit 1 0)) * maxEncoded).toIndex
  (idxToChar (value / base % base), idxToChar (value % base))

/-- A text as so many numbers, two characters to each. -/
def encodeString (s : String) (numFloats : Nat) : List Binary32 :=
  (List.range numFloats).map fun i =>
    encode2Chars (s.toList.getD (2 * i) '\x00') (s.toList.getD (2 * i + 1) '\x00')

/-- The characters of some numbers, up to the sentinel. -/
def decodeChars : List Binary32 → List Char
  | [] => []
  | f :: rest =>
    let (c1, c2) := decode2Chars f
    if c1 = '\x00' then []
    else if c2 = '\x00' then [c1]
    else c1 :: c2 :: decodeChars rest

/-- The text of some numbers. -/
def decodeString (floats : List Binary32) : String := String.ofList (decodeChars floats)

/-! ### Encoding -/

/-- The index of a head: that of its morpheme, or zero for a name that the registry lacks. -/
def headToIndex (registry : MorphemeRegistry) : PredicateHead → Nat
  | .id id => id.index.toNat
  | .name name =>
    match registry.resolve name with
    | some id => id.index.toNat
    | none => 0

/-- The number of the arguments and the codes of their kinds as one number. -/
def packArgs (argCount : Nat) (types : List UInt8) : Binary32 :=
  let packed := argCount * 1331 + (types.getD 0 0).toNat * 121 + (types.getD 1 0).toNat * 11 +
    (types.getD 2 0).toNat
  Binary32.ofNat packed / maxPacked

/-- Write values one after the other. -/
def writeFrom (data : List Binary32) (offset : Nat) : List Binary32 → List Binary32
  | [] => data
  | value :: rest => writeFrom (data.set offset value) (offset + 1) rest

section Encoding

variable (host : Host Binary32) (registry : MorphemeRegistry)

/-- Write the characters of an argument, and note the code of its kind. -/
def encodeArg (args : List Term) (state : List UInt8 × List Binary32) (i : Nat) :
    List UInt8 × List Binary32 :=
  match args[i]? with
  | some arg =>
    let (valStr, typeCode) := termValueString host arg
    (state.1 ++ [typeCode], writeFrom state.2 (offArg i) (encodeString valStr argFloats))
  | none => (state.1 ++ [0], state.2)

/-- Write a predicate, and the scores of its node. -/
def encodePredicate (node : Node Binary32) (data : List Binary32) : List Binary32 :=
  let pred := node.predicate
  let data := data.set offHeadIndex
    (Binary32.ofNat (headToIndex registry pred.head) / maxMorphemes)
  let (typeCodes, data) := [0, 1, 2].foldl (encodeArg host pred.args) ([], data)
  let data := data.set offPackedArgs (packArgs (min pred.args.length 3) typeCodes)
  let named : Binary32 :=
    match pred.named.head? with
    | some (_, val) =>
      F32.lit 1 0 + Binary32.ofNat (termValueString host val).2.toNat / F32.lit 100 0
    | none => F32.lit 0 0
  let data := data.set offNamed named
  let data := data.set offConfidence node.confidence.value
  data.set offAuthority node.authority.value

/-- The vector of a node. -/
def encodeNode (node : Node Binary32) : ThoughtVector :=
  let data := List.replicate packedCodecDim (F32.lit 0 0)
  let data := data.set offScaleRef (F32.lit 1 0)
  ⟨encodePredicate host registry node data, packedCodecDim⟩

/-- The vector of the first node, or of none. -/
def encodeSequence : List (Node Binary32) → ThoughtVector
  | [] => .zeros packedCodecDim
  | node :: _ => encodeNode host registry node

/-- The vector of the first node of a text. -/
def encodeText (text : String) : Except (Stop CodecError) ThoughtVector :=
  match Parser.parse host text with
  | .error (.fail error) => .error (.fail (.encodeError ("parse error: " ++ error.display)))
  | .error .panic => .error .panic
  | .error .fuel => .error .fuel
  | .ok nodes => .ok (encodeSequence host registry nodes)

end Encoding

/-! ### Decoding -/

/-- The number at an index of a vector. -/
def entry (data : List Binary32) (idx : Nat) : Except (Stop CodecError) Binary32 :=
  match data[idx]? with
  | some value => .ok value
  | none => .error .panic

/-- The scale reference is too small to divide by. -/
def isBlank (scaleRef : Binary32) : Bool := F32.lt (F32.abs scaleRef) (F32.lit 1 10)

/-- A number of a vector, divided by the scale reference. -/
def recoverValue (data : List Binary32) (idx : Nat) : Except (Stop CodecError) Binary32 := do
  let scaleRef ← entry data offScaleRef
  if isBlank scaleRef then return F32.lit 0 0
  return (← entry data idx) / scaleRef

/-- The name of the head of a vector. -/
def decodeHead (registry : MorphemeRegistry) (data : List Binary32) :
    Except (Stop CodecError) String := do
  let raw ← recoverValue data offHeadIndex
  let idx := (raw * maxMorphemes).toIndex
  match registry.lookupId ⟨UInt32.ofNat idx⟩ with
  | some morpheme => return morpheme.name
  | none =>
    throw (.fail (.term (.decodeError ("morpheme index " ++ toString idx ++ " not in registry"))))

/-- The number of the arguments and the codes of their kinds. -/
def unpackArgs (raw : Binary32) : Nat × List UInt8 :=
  let packed := (raw * maxPacked).toIndex
  let remainder := packed % 1331
  (min (packed / 1331) 3,
    [UInt8.ofNat (remainder / 121), UInt8.ofNat (remainder / 11 % 11),
      UInt8.ofNat (remainder % 11)])

/-- The numbers from an offset on, divided by the scale reference. -/
def recoverSlice (data : List Binary32) (scaleRef : Binary32) :
    Nat → Nat → Except (Stop CodecError) (List Binary32)
  | _, 0 => return []
  | offset, len + 1 => do
    let value := (← entry data offset) / scaleRef
    return value :: (← recoverSlice data scaleRef (offset + 1) len)

/-- The text of a slice of a vector. -/
def decodeStringSlice (data : List Binary32) (offset len : Nat) :
    Except (Stop CodecError) String := do
  let scaleRef ← entry data offScaleRef
  if isBlank scaleRef then return ""
  return decodeString (← recoverSlice data scaleRef offset len)

section Decoding

variable (host : Host Binary32) (registry : MorphemeRegistry)

/-- Read the arguments at some positions. -/
def decodeArgs (data : List Binary32) (argTypes : List UInt8) :
    List Nat → Except (Stop CodecError) (List Term)
  | [] => return []
  | i :: rest => do
    let typeCode := argTypes.getD i 0
    let valStr ← decodeStringSlice data (offArg i) argFloats
    if valStr.isEmpty && 0 < typeCode then
      let arg ← ofTerm (reconstructTerm host "UNKNOWN" typeCode)
      return arg :: (← decodeArgs data argTypes rest)
    else if 0 < typeCode then
      let arg ← ofTerm (reconstructTerm host valStr typeCode)
      return arg :: (← decodeArgs data argTypes rest)
    else decodeArgs data argTypes rest

/-- The predicate of a vector. -/
def decodePredicate (data : List Binary32) : Except (Stop CodecError) Predicate := do
  let headName ← decodeHead registry data
  let packedRaw ← recoverValue data offPackedArgs
  let (argCount, argTypes) := unpackArgs packedRaw
  let args ← decodeArgs host data argTypes (List.range argCount)
  return ⟨.name headName, args, []⟩

/-- The nodes of a vector, and the canonical text. -/
structure DecodeResult where
  nodes : List (Node Binary32)
  canonicalText : String

/-- The provenance of a decoded node. -/
def decodedProvenance : Provenance := .asserted ⟨"packed-codec-decoder"⟩

/-- A decoded node. -/
def decodedNode (predicate : Predicate) (authority : Binary32) : Node Binary32 :=
  { (Node.new "decoded" predicate : Node Binary32) with
    confidence := defaultConfidenceForProvenance decodedProvenance
    authority := ⟨authority⟩
    permissions := .publicTag
    validity := .forever
    provenance := decodedProvenance }

/-- Decode a vector. -/
def decode (vector : ThoughtVector) : Except (Stop CodecError) DecodeResult := do
  if vector.dim ≠ packedCodecDim then
    throw (.fail (.dimensionMismatch packedCodecDim vector.dim))
  let predicate ← decodePredicate host registry vector.data
  -- The confidence is read but not used.
  let _ ← recoverValue vector.data offConfidence
  let authority ← recoverValue vector.data offAuthority
  let node := decodedNode predicate (authority.clamp (F32.lit 0 0) (F32.lit 1 0))
  return ⟨[node], canonical host node⟩

end Decoding

end PackedCodec

end Factum
