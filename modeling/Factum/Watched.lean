/-
This file states the parser's methods again, over the way in which they go a level down.

A method that recurses runs the inner computation one level deeper. Here that step is left
open. With the step of the source the methods are those of the source; with a step that
also looks at the depth counter, they watch it at every call of a run.
-/

import Factum.Parser

namespace Factum

open Stateful

namespace Parser

/-- A way to run a computation one level deeper. -/
abbrev Descent := (α : Type) → ParserM α → ParserM α

/-- The descent of the source. -/
def plainDepth : Descent := fun _ => withDepth

/-- A computation that panics where the counter is beyond the limit. -/
def belowLimit {α : Type} (computation : ParserM α) : ParserM α := fun parser =>
  if maxParseDepth < parser.depth then .error .panic parser else computation parser

/-- A descent that panics where the counter is beyond the limit, or is not put back. -/
def watchedDepth : Descent := fun _ computation parser =>
  if (final (withDepth (belowLimit computation)) parser).depth = parser.depth then
    withDepth (belowLimit computation) parser
  else .error .panic parser

/-- A descent that panics where the counter would get beyond the limit. -/
def stoppingDepth : Descent := fun _ computation parser =>
  if maxParseDepth < parser.depth + 1 then .error .panic parser
  else withDepth computation parser

namespace Watched

variable {F : Type} (descend : Descent) (host : Host F)

/-! ### Terms and predicates -/

mutual

/-- Read a term. -/
def parseTerm : Nat → ParserM Term
  | 0 => throw .fuel
  | fuel + 1 => do
    match ← peekKind with
    | .var s => do
      discard advance
      return .var s
    | .entity s => do
      discard advance
      return .ent ⟨s⟩
    | .number s => do
      discard advance
      let literal ← orError ((Literal.decFromStr s).mapError (CoreError.display host))
      return .lit literal
    | .str s => do
      discard advance
      return .lit (.str s)
    | .bool b => do
      discard advance
      return .lit (.bool b)
    | .date s => do
      discard advance
      return .lit (.date (← orError (host.dateFromStr s)))
    | .duration s => do
      discard advance
      return .lit (.dur (← orError (parseDuration s)))
    | .uri s => do
      discard advance
      return .lit (.uri s)
    | .lParen => descend _ do
      discard advance
      let pred ← parsePredicateBodyInner fuel
      discard (expect host .rParen)
      return .compound pred
    | .lBracket => descend _ do
      discard advance
      let items ← parseItems fuel []
      discard (expect host .rBracket)
      return .list items
    | .symbol s => do
      discard advance
      return .ent ⟨s⟩
    | kind => failWith ("unexpected token in term position: " ++ kind.debug host.strDebug)

/-- Read the items of a list. -/
def parseItems : Nat → List Term → ParserM (List Term)
  | 0, _ => throw .fuel
  | fuel + 1, items => do
    match ← peekKind with
    | .rBracket | .eof => return items
    | _ =>
      let term ← parseTerm fuel
      parseItems fuel (items ++ [term])

/-- Read a head and its arguments. -/
def parsePredicateBodyInner : Nat → ParserM Predicate
  | 0 => throw .fuel
  | fuel + 1 => do
    match ← advance with
    | .symbol s => parseArguments fuel ⟨.name s, [], []⟩ false
    | _ => failWith "expected predicate head symbol"

/-- Read arguments, the positional ones first. -/
def parseArguments : Nat → Predicate → Bool → ParserM Predicate
  | 0, _, _ => throw .fuel
  | fuel + 1, pred, inNamed => do
    match ← peekKind with
    | .rParen | .eof => return pred
    | .keyword key => do
      discard advance
      let val ← parseTerm fuel
      parseArguments fuel { pred with named := pred.named ++ [(key, val)] } true
    | _ =>
      if inNamed then
        failWith ("NamedArgBeforePositional: positional argument after named argument — " ++
          "named args must be last")
      else
        let term ← parseTerm fuel
        parseArguments fuel { pred with args := pred.args ++ [term] } inNamed

end

/-- Read a predicate with its parentheses. -/
def parsePredicateForm : ParserM Predicate := descend _ do
  discard (expect host .lParen)
  let pred ← parsePredicateBodyInner descend host (← get).termFuel
  discard (expect host .rParen)
  return pred

/-! ### Nodes -/

variable [F32 F]

/-- Read the field of a node that a keyword names. -/
def parseField (fields : NodeFields F) (key : String) : ParserM (NodeFields F) := do
  if key = "pred" then
    return { fields with predicate := some (← parsePredicateForm descend host) }
  else Parser.parseField host fields key

/-- Read the fields of a node. -/
def parseFields : Nat → NodeFields F → ParserM (NodeFields F)
  | 0, _ => throw .fuel
  | fuel + 1, fields => do
    match ← peekKind with
    | .rParen | .eof => return fields
    | .keyword key => do
      discard advance
      let fields ← parseField descend host fields key
      parseFields fuel fields
    | kind => failWith ("expected keyword argument, got " ++ kind.debug host.strDebug)

/-- Read a node. -/
def parseNode : ParserM (Node F) := descend _ do
  discard (expect host .lParen)
  expectSymbol "node"
  match ← advance with
  | .symbol id =>
    let fields ← parseFields descend host ((← get).tokens.length + 1) .default
    discard (expect host .rParen)
    match fields.predicate with
    | none => failWith "MissingPredField: node missing :pred field"
    | some predicate =>
      return {
        id := ⟨id⟩
        predicate
        validity := fields.validity
        provenance := fields.provenance
        confidence := fields.confidence
        authority := fields.authority
        permissions := fields.permissions
        deps := fields.deps
        status := .active
        note := fields.note }
  | _ => failWith "expected node id"

/-- Read the nodes of a text and skip its other forms. -/
def parseTop : Nat → List (Node F) → ParserM (List (Node F))
  | 0, _ => throw .fuel
  | fuel + 1, nodes => do
    match ← peekKind with
    | .eof => return nodes
    | .lParen => do
      if (← peekKindAt 1) = some (.symbol "node") then
        let node ← parseNode descend host
        parseTop fuel (nodes ++ [node])
      else
        skipSexp
        parseTop fuel nodes
    | _ => do
      discard advance
      parseTop fuel nodes

end Watched

/-! ### The methods of the source -/

section Plain

variable {F : Type} (host : Host F)

mutual

theorem parseTerm_plainDepth : ∀ fuel : Nat,
    Watched.parseTerm plainDepth host fuel = parseTerm host fuel
  | 0 => rfl
  | fuel + 1 => by
    rw [Watched.parseTerm, parseTerm, parseItems_plainDepth fuel,
      parsePredicateBodyInner_plainDepth fuel]
    rfl

theorem parseItems_plainDepth : ∀ (fuel : Nat) (items : List Term),
    Watched.parseItems plainDepth host fuel items = parseItems host fuel items
  | 0, _ => rfl
  | fuel + 1, items => by
    simp only [Watched.parseItems, parseTerm_plainDepth fuel,
      parseItems_plainDepth fuel]
    rfl

theorem parsePredicateBodyInner_plainDepth : ∀ fuel : Nat,
    Watched.parsePredicateBodyInner plainDepth host fuel = parsePredicateBodyInner host fuel
  | 0 => rfl
  | fuel + 1 => by
    simp only [Watched.parsePredicateBodyInner, parseArguments_plainDepth fuel]
    rfl

theorem parseArguments_plainDepth : ∀ (fuel : Nat) (pred : Predicate) (inNamed : Bool),
    Watched.parseArguments plainDepth host fuel pred inNamed =
      parseArguments host fuel pred inNamed
  | 0, _, _ => rfl
  | fuel + 1, pred, inNamed => by
    simp only [Watched.parseArguments, parseTerm_plainDepth fuel,
      parseArguments_plainDepth fuel]
    rfl

end

theorem parsePredicateForm_plainDepth :
    Watched.parsePredicateForm plainDepth host = parsePredicateForm host := by
  simp only [Watched.parsePredicateForm, parsePredicateBodyInner_plainDepth]
  rfl

variable [F32 F]

theorem parseField_plainDepth (fields : NodeFields F) (key : String) :
    Watched.parseField plainDepth host fields key = parseField host fields key := by
  rw [Watched.parseField, parsePredicateForm_plainDepth]
  by_cases isPredicate : key = "pred"
  · rw [if_pos isPredicate, parseField, if_pos isPredicate]
  · exact if_neg isPredicate

theorem parseFields_plainDepth : ∀ (fuel : Nat) (fields : NodeFields F),
    Watched.parseFields plainDepth host fuel fields = parseFields host fuel fields
  | 0, _ => rfl
  | fuel + 1, fields => by
    simp only [Watched.parseFields, parseField_plainDepth,
      parseFields_plainDepth fuel]
    rfl

theorem parseNode_plainDepth :
    (Watched.parseNode plainDepth host : ParserM (Node F)) = parseNode host := by
  simp only [Watched.parseNode, parseFields_plainDepth]
  rfl

/-- With the descent of the source the top level is that of the source. -/
theorem parseTop_plainDepth : ∀ (fuel : Nat) (nodes : List (Node F)),
    Watched.parseTop plainDepth host fuel nodes = parseTop host fuel nodes
  | 0, _ => rfl
  | fuel + 1, nodes => by
    simp only [Watched.parseTop, parseNode_plainDepth, parseTop_plainDepth fuel]
    rfl

end Plain

end Parser

end Factum
