/-
This file embeds the compact form of nodes: JSON in which the fields are numbered and
the heads of predicates are morpheme identifiers where the registry knows them.

The source builds a record and has it written by a derived serializer; the record is
embedded as it is, and the attributes on it (renamed fields, fields left out when they
are empty, untagged and tagged variants) are the functions from its parts to JSON.
-/

import Factum.Morphemes
import Factum.Serialize
import Factum.Library.Json

namespace Factum

/-! ### The record -/

/-- A head in compact form. -/
inductive CompactHead where
  | name (name : String)
  | id (id : UInt32)
deriving DecidableEq, Repr

mutual

/-- A term in compact form. A literal is its canonical string. -/
inductive CompactTerm where
  | var (name : String)
  | ent (entity : String)
  | lit (literal : String)
  | list (items : List CompactTerm)
  | compound (pred : CompactPredicate)

/-- A predicate in compact form. -/
structure CompactPredicate where
  h : CompactHead
  a : List CompactTerm
  n : List (String × CompactTerm)

end

/-- The validity in compact form, whose bounds are days. -/
inductive CompactValidity where
  | forever
  | window (f : String) (u : Option String)
deriving DecidableEq, Repr

/-- The provenance in compact form. The words of its fields are one letter each. -/
inductive CompactProvenance where
  | verbatim (d : String) (s : UInt32 × UInt32)
  | summary (d : String) (s : UInt32 × UInt32)
  | extracted (d : String) (s : UInt32 × UInt32) (m : String × String)
  | derived (f : String) (r : String)
  | asserted (b : String)
deriving DecidableEq, Repr

/-- Compact node representation for JSON serialization. -/
structure CompactNode (F : Type) where
  id : String
  head : CompactHead
  args : List CompactTerm
  named : List (String × CompactTerm)
  valid : CompactValidity
  src : CompactProvenance
  conf : F
  auth : F
  perm : UInt32
  deps : List String
  note : Option String

/-! ### From a node to the record -/

section FromNode

variable {F : Type} (host : Host F)

/-- A head inside a term: a name stays a name. -/
def CompactHead.ofHead : PredicateHead → CompactHead
  | .name head => .name head
  | .id morpheme => .id morpheme.index

mutual

/-- The compact form of a term. -/
def CompactTerm.fromTerm : Term → CompactTerm
  | .var name => .var name
  | .ent entity => .ent entity.asStr
  | .lit literal => .lit (String.ofList (literal.toCanonicalString host))
  | .list items => .list (CompactTerm.fromTerms items)
  | .compound pred => .compound (CompactPredicate.fromPredicate pred)

/-- The compound case of `CompactTerm::from_term`. -/
def CompactPredicate.fromPredicate : Predicate → CompactPredicate
  | ⟨head, args, named⟩ => ⟨.ofHead head, CompactTerm.fromTerms args, CompactTerm.fromNamed named⟩

/-- The compact forms of terms. -/
def CompactTerm.fromTerms : List Term → List CompactTerm
  | [] => []
  | term :: rest => CompactTerm.fromTerm term :: CompactTerm.fromTerms rest

/-- The compact forms of named arguments. -/
def CompactTerm.fromNamed : List (String × Term) → List (String × CompactTerm)
  | [] => []
  | (key, term) :: rest => (key, CompactTerm.fromTerm term) :: CompactTerm.fromNamed rest

end

/-- The head of a node: a name that the registry knows becomes its identifier. -/
def CompactHead.resolved (registry : MorphemeRegistry) : PredicateHead → CompactHead
  | .name head =>
    match registry.resolve head with
    | some morpheme => .id morpheme.index
    | none => .name head
  | .id morpheme => .id morpheme.index

/-- The compact form of a validity. -/
def CompactValidity.ofValidity : Validity → CompactValidity
  | .forever => .forever
  | .window from_ until_ =>
    .window (host.dateFormat from_.date) (until_.map fun u => host.dateFormat u.date)

/-- The compact form of a provenance. -/
def CompactProvenance.ofProvenance : Provenance → CompactProvenance
  | .verbatim doc span => .verbatim doc.asStr (span.start, span.stop)
  | .summary doc span => .summary doc.asStr (span.start, span.stop)
  | .extracted doc span model =>
    .extracted doc.asStr (span.start, span.stop) (model.name, model.version)
  | .derived from_ rule => .derived from_.asStr rule.asStr
  | .asserted by_ => .asserted by_.asStr

/-- The compact form of a node. -/
def CompactNode.fromNode (node : Node F) (registry : MorphemeRegistry) : CompactNode F where
  id := node.id.asStr
  head := .resolved registry node.predicate.head
  args := CompactTerm.fromTerms host node.predicate.args
  named := CompactTerm.fromNamed host node.predicate.named
  valid := .ofValidity host node.validity
  src := .ofProvenance node.provenance
  conf := node.confidence.value
  auth := node.authority.value
  perm := node.permissions.bits
  deps := node.deps.map (·.asStr)
  note := node.note

end FromNode

/-! ### From the record to JSON -/

/-- A field that is left out when its condition fails. -/
def fieldUnless {D : Type} (skipped : Bool) (key : String) (value : Json D) :
    List (String × Json D) :=
  if skipped then [] else [(key, value)]

section ToJson

variable {D : Type}

/-- An untagged variant is the JSON of its content. -/
def CompactHead.toJson : CompactHead → Json D
  | .name head => .str head
  | .id index => .int index.toNat

mutual

/-- The JSON of a term in compact form. -/
def CompactTerm.toJson : CompactTerm → Json D
  | .var name => .str name
  | .ent entity => .str entity
  | .lit literal => .str literal
  | .list items => .arr (CompactTerm.allToJson items)
  | .compound pred => CompactPredicate.toJson pred

/-- The JSON of a predicate in compact form. -/
def CompactPredicate.toJson : CompactPredicate → Json D
  | ⟨h, a, n⟩ =>
    .obj ([("h", h.toJson), ("a", .arr (CompactTerm.allToJson a))] ++
      fieldUnless n.isEmpty "n" (.arr (CompactTerm.namedToJson n)))

/-- The JSON of terms in compact form. -/
def CompactTerm.allToJson : List CompactTerm → List (Json D)
  | [] => []
  | term :: rest => CompactTerm.toJson term :: CompactTerm.allToJson rest

/-- A pair of a key and a term is an array of two values. -/
def CompactTerm.namedToJson : List (String × CompactTerm) → List (Json D)
  | [] => []
  | (key, term) :: rest =>
    .arr [.str key, CompactTerm.toJson term] :: CompactTerm.namedToJson rest

end

/-- A variant with a name: alone, or as the only field of an object. -/
def CompactValidity.toJson : CompactValidity → Json D
  | .forever => .str "Forever"
  | .window f u =>
    .obj [("Window", .obj [("f", .str f), ("u", (u.map Json.str).getD .null)])]

/-- The two bounds of a span. -/
def spanToJson (s : UInt32 × UInt32) : Json D := .arr [.int s.1.toNat, .int s.2.toNat]

/-- A variant with its name under `t` and its content under `v`. -/
def CompactProvenance.toJson : CompactProvenance → Json D
  | .verbatim d s =>
    .obj [("t", .str "Verbatim"), ("v", .obj [("d", .str d), ("s", spanToJson s)])]
  | .summary d s =>
    .obj [("t", .str "Summary"), ("v", .obj [("d", .str d), ("s", spanToJson s)])]
  | .extracted d s m =>
    .obj [("t", .str "Extracted"),
      ("v", .obj [("d", .str d), ("s", spanToJson s), ("m", .arr [.str m.1, .str m.2])])]
  | .derived f r => .obj [("t", .str "Derived"), ("v", .obj [("f", .str f), ("r", .str r)])]
  | .asserted b => .obj [("t", .str "Asserted"), ("v", .obj [("b", .str b)])]

end ToJson

variable {F : Type}

/-- The JSON of a node in compact form. -/
def CompactNode.toJson (node : CompactNode F) : Json F :=
  .obj ([("0", .str node.id), ("1", node.head.toJson),
      ("2", .arr (CompactTerm.allToJson node.args))] ++
    fieldUnless node.named.isEmpty "3" (.arr (CompactTerm.namedToJson node.named)) ++
    [("4", node.valid.toJson), ("5", node.src.toJson), ("6", .float node.conf),
      ("7", .float node.auth), ("8", .int node.perm.toNat)] ++
    fieldUnless node.deps.isEmpty "9" (.arr (node.deps.map .str)) ++
    fieldUnless node.note.isNone "10" ((node.note.map Json.str).getD .null))

/-- Serialize a node to compact form, given the JSON text of a number. -/
def compact (host : Host F) (floatText : F → String) (node : Node F)
    (registry : MorphemeRegistry) : String :=
  (CompactNode.fromNode host node registry).toJson.render floatText

end Factum
