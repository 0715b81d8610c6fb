/-
This file embeds the comparison of nodes for semantic equivalence.

Two predicates are compared head by head and argument by argument. A different shape ends
the comparison at once; a different value is counted, in 32 bits that wrap around, and noted
in a list of differences. What the comparison answers at the end of a list of values depends
on the count first, and on the notes where it is zero.
-/

import Factum.Morphemes
import Factum.Serialize

namespace Factum

variable {F : Type}

/-- Equivalence level. -/
inductive EquivLevel where
  | exact
  | metadataDrift
  | wrongValues
  | different
deriving DecidableEq, Repr

/-- Equivalence comparison result. -/
structure EquivResult (F : Type) where
  level : EquivLevel
  score : F
  differences : List String

namespace EquivResult

variable [F32 F]

/-- Nothing differs. -/
def exact : EquivResult F := ⟨.exact, F32.lit 1 0, []⟩

/-- The predicates agree and the metadata differs. -/
def metadataDrift (differences : List String) : EquivResult F :=
  ⟨.metadataDrift, F32.lit 85 2, differences⟩

/-- The score is at most 0.3. -/
def wrongValues (score : F) (differences : List String) : EquivResult F :=
  ⟨.wrongValues, if F32.le score (F32.lit 3 1) then score else F32.lit 3 1, differences⟩

/-- The nodes differ for a reason. -/
def different (reason : String) : EquivResult F := ⟨.different, F32.lit 0 0, [reason]⟩

/-- The differences as one text. -/
def joined (result : EquivResult F) : String := String.intercalate "; " result.differences

end EquivResult

/-! ### Heads -/

/-- The `Debug` text of a kind. -/
def MorphemeKind.debug : MorphemeKind → String
  | .entity => "Entity"
  | .relation => "Relation"
  | .quantifier => "Quantifier"
  | .modal => "Modal"
  | .temporal => "Temporal"
  | .status => "Status"
  | .action => "Action"
  | .attribute => "Attribute"
  | .classification => "Classification"

/-- The `Debug` text of a head. -/
def PredicateHead.debug (strDebug : String → String) : PredicateHead → String
  | .id ⟨index⟩ => "Id(MorphemeId(" ++ toString index ++ "))"
  | .name text => "Name(" ++ strDebug text ++ ")"

/-- How two heads compare. -/
inductive HeadMatch where
  | same
  | sameKind (kindA kindB : MorphemeKind)
  | different

/-- The kind of a head that the registry lacks, from its name: a relation in every case. -/
def inferKindFromName (name : String) : MorphemeKind :=
  if "-of".toList <:+ name.toList ∨ "-by".toList <:+ name.toList ∨
      "-in".toList <:+ name.toList then .relation
  else if "is-".toList <+: name.toList ∨ name = "instance-of" then .relation
  else .relation

/-- The kind of a head, and the name that the registry has for it. -/
def MorphemeRegistry.headInfo (registry : MorphemeRegistry) :
    PredicateHead → MorphemeKind × String
  | .id id =>
    match registry.lookupId id with
    | some definition => (definition.kind, definition.name)
    | none => (.relation, "M" ++ toString id.index)
  | .name name =>
    match registry.lookup name with
    | some definition => (definition.kind, definition.name)
    | none => (inferKindFromName name, name)

/-- Compare two heads by their names and by their kinds. -/
def SemEquiv.compareHeads (registry : MorphemeRegistry) (a b : PredicateHead) : HeadMatch :=
  let (kindA, nameA) := registry.headInfo a
  let (kindB, nameB) := registry.headInfo b
  if nameA = nameB then .same
  else if kindA = kindB then .sameKind kindA kindB
  else .different

/-! ### Values -/

/-- The differences noted so far, and the number of wrong values. -/
structure Tally where
  diffs : List String
  wrongCount : UInt32

/-- How the differences of the values of a list are worded. -/
structure Wording where
  values : String
  wrong : String
  mismatch : String

/-- The words for positional arguments. -/
def Wording.args : Wording := ⟨"arg", " value wrong: ", " type mismatch: "⟩

/-- The words for named arguments. -/
def Wording.named : Wording := ⟨"named", " value wrong: ", " value type mismatch: "⟩

/-- The words for the items of a list. -/
def Wording.items : Wording := ⟨"list", ": ", " type mismatch: "⟩

/-- Take the result for the value at an index into account. A different shape is the reason to
stop. -/
def Tally.take (tally : Tally) (wording : Wording) (i : Nat) (result : EquivResult F) :
    Except String Tally :=
  let place := wording.values ++ "[" ++ toString i ++ "]"
  match result.level with
  | .exact => .ok tally
  | .wrongValues =>
    .ok ⟨tally.diffs ++ [place ++ wording.wrong ++ result.joined], tally.wrongCount + 1⟩
  | .different => .error (place ++ wording.mismatch ++ result.joined)
  | .metadataDrift =>
    .ok ⟨tally.diffs ++ [place ++ " drift: " ++ result.joined], tally.wrongCount⟩

/-- The result at the end: 0.3, less 0.1 for each wrong value, where there are any. -/
def Tally.conclude [F32 F] (tally : Tally) : EquivResult F :=
  if 0 < tally.wrongCount then
    let penalty := F32.mul (F32.lit 1 1) (F32.lit tally.wrongCount.toNat 0)
    let score := F32.max (F32.sub (F32.lit 3 1) penalty) (F32.lit 0 0)
    .wrongValues score tally.diffs
  else if tally.diffs.isEmpty then .exact
  else .metadataDrift tally.diffs

/-- Compare two literals. -/
def litEq (a b : Literal) : Bool :=
  match a, b with
  | .dec mantissaA scaleA, .dec mantissaB scaleB => mantissaA == mantissaB && scaleA == scaleB
  | _, _ => a == b

/-- The two are literals of one type. -/
def sameType : Literal → Literal → Bool
  | .dec _ _, .dec _ _ | .str _, .str _ | .date _, .date _ | .dur _, .dur _ | .bool _, .bool _
  | .uri _, .uri _ => true
  | _, _ => false

/-- The word for the kind of a term. -/
def termKindName : Term → String
  | .var _ => "Var"
  | .ent _ => "Ent"
  | .lit _ => "Lit"
  | .compound _ => "Compound"
  | .list _ => "List"

/-- The numbers of values in two lists that should have as many. -/
def countMismatch (what : String) (a b : Nat) : String :=
  what ++ ": " ++ toString a ++ " vs " ++ toString b

namespace SemEquiv

variable [F32 F] (host : Host F) (registry : MorphemeRegistry)

mutual

/-- Compare two predicates. -/
def comparePredicates : Predicate → Predicate → EquivResult F
  | ⟨headA, argsA, namedA⟩, ⟨headB, argsB, namedB⟩ =>
    match compareHeads registry headA headB with
    | .sameKind kindA kindB =>
      .different ("head kind match but different morpheme: " ++ kindA.debug ++ " vs " ++
        kindB.debug)
    | .different =>
      .different ("predicate head kind mismatch: " ++ headA.debug host.strDebug ++ " vs " ++
        headB.debug host.strDebug)
    | .same =>
      if argsA.length ≠ argsB.length then
        .different (countMismatch "arg count mismatch" argsA.length argsB.length)
      else
        match compareAll .args argsA argsB 0 ⟨[], 0⟩ with
        | .error reason => .different reason
        | .ok tally =>
          if namedA.length ≠ namedB.length then
            .different (countMismatch "named arg count mismatch" namedA.length namedB.length)
          else
            match compareNamed namedA namedB 0 tally with
            | .error reason => .different reason
            | .ok tally => tally.conclude
termination_by structural a => a

/-- Compare two terms. -/
def compareTerms : Term → Term → EquivResult F
  | .var nameA, .var nameB =>
    if nameA = nameB then .exact
    else .wrongValues (F32.lit 2 1) ["var name: " ++ nameA ++ " vs " ++ nameB]
  | .ent entityA, .ent entityB =>
    if entityA = entityB then .exact
    else .wrongValues (F32.lit 3 1) ["entity: " ++ entityA.asStr ++ " vs " ++ entityB.asStr]
  | .lit literalA, .lit literalB =>
    let texts := String.ofList (literalA.toCanonicalString host) ++ " vs " ++
      String.ofList (literalB.toCanonicalString host)
    if litEq literalA literalB then .exact
    else if sameType literalA literalB then
      .wrongValues (F32.lit 3 1) ["literal value: " ++ texts]
    else .different ("literal type: " ++ texts)
  | .compound predA, .compound predB => comparePredicates predA predB
  | .list itemsA, .list itemsB =>
    if itemsA.length ≠ itemsB.length then
      .different (countMismatch "list length" itemsA.length itemsB.length)
    else
      match compareAll .items itemsA itemsB 0 ⟨[], 0⟩ with
      | .error reason => .different reason
      | .ok tally => tally.conclude
  | a, b =>
    .different ("term type mismatch: " ++ termKindName a ++ " vs " ++ termKindName b)
termination_by structural a => a

/-- The loop over two lists of terms. -/
def compareAll (wording : Wording) :
    List Term → List Term → Nat → Tally → Except String Tally
  | a :: restA, b :: restB, i, tally =>
    match tally.take wording i (compareTerms a b) with
    | .error reason => .error reason
    | .ok tally => compareAll wording restA restB (i + 1) tally
  | _, _, _, tally => .ok tally
termination_by structural a => a

/-- The loop over two lists of named arguments. -/
def compareNamed : List (String × Term) → List (String × Term) → Nat → Tally →
    Except String Tally
  | (keyA, a) :: restA, (keyB, b) :: restB, i, tally =>
    if keyA ≠ keyB then
      .error ("named[" ++ toString i ++ "] key mismatch: " ++ keyA ++ " vs " ++ keyB)
    else
      match tally.take .named i (compareTerms a b) with
      | .error reason => .error reason
      | .ok tally => compareNamed restA restB (i + 1) tally
  | _, _, _, tally => .ok tally
termination_by structural a => a

end

/-- The text of a difference, where there is one. -/
def noteIf (differs : Bool) (text : String) : List String := if differs then [text] else []

/-- Epsilon for confidence and authority. -/
def f32Eps : F := F32.lit 1 6

/-- Whether two numbers are further apart than the epsilon. -/
def apart (a b : F) : Bool := F32.lt f32Eps (F32.abs (F32.sub a b))

/-- The differences of the metadata of two nodes. -/
def collectMetadataDiffs (a b : Node F) : List String :=
  noteIf (a.validity != b.validity) "validity mismatch" ++
  noteIf (a.provenance != b.provenance) "provenance mismatch" ++
  noteIf (apart a.confidence.value b.confidence.value)
    ("confidence: " ++ host.f32Display a.confidence.value ++ " vs " ++
      host.f32Display b.confidence.value) ++
  noteIf (apart a.authority.value b.authority.value)
    ("authority: " ++ host.f32Display a.authority.value ++ " vs " ++
      host.f32Display b.authority.value) ++
  noteIf (a.permissions != b.permissions) "permissions mismatch" ++
  noteIf (a.deps != b.deps) "deps mismatch" ++
  noteIf (a.status != b.status)
    ("status mismatch: " ++ a.status.debug ++ " vs " ++ b.status.debug)

/-- Compare two nodes for semantic equivalence. -/
def compare (original decoded : Node F) : EquivResult F :=
  let predResult := comparePredicates host registry original.predicate decoded.predicate
  let metadata := collectMetadataDiffs host original decoded
  match predResult.level with
  | .different => predResult
  | .wrongValues => .wrongValues predResult.score (predResult.differences ++ metadata)
  | level =>
    let diffs := (if level = .metadataDrift then predResult.differences else []) ++ metadata
    if diffs.isEmpty then .exact else .metadataDrift diffs

end SemEquiv

end Factum
