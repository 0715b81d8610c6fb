/-
This file embeds the morpheme registry: the vocabulary of predicate heads.

A registry is a table from names to identifiers and a list of definitions that an
identifier indexes. The seed vocabulary is a table of constants that no function
here reads, so a registry starts empty and grows by registration.
-/

import Factum.Types
import Mathlib.Data.List.AList

namespace Factum

/-- Kind of morpheme. -/
inductive MorphemeKind where
  | entity
  | relation
  | quantifier
  | modal
  | temporal
  | status
  | action
  | attribute
  | classification
deriving DecidableEq, Repr

/-- Governance status of a morpheme proposal. -/
inductive ProposalStatus where
  | draft
  | review
  | adopted
deriving DecidableEq, Repr

/-- Type signature of a morpheme, as its raw text. -/
structure FnType where
  raw : String
deriving DecidableEq, Repr

/-- Definition of a morpheme. -/
structure MorphemeDef where
  id : MorphemeId
  name : String
  kind : MorphemeKind
  signature : FnType
  doc : String
  status : ProposalStatus
deriving DecidableEq, Repr

/-- The registry: names to identifiers, and identifiers to definitions. -/
structure MorphemeRegistry where
  byName : AList (fun _ : String => MorphemeId)
  byId : List MorphemeDef
deriving DecidableEq

namespace MorphemeRegistry

/-- An empty registry. -/
def new : MorphemeRegistry := ⟨∅, []⟩

/-- Register a morpheme and return its identifier; a name that exists keeps its own. -/
def register (registry : MorphemeRegistry) (definition : MorphemeDef) :
    MorphemeId × MorphemeRegistry :=
  match registry.byName.lookup definition.name with
  | some id => (id, registry)
  | none =>
    let id : MorphemeId := ⟨UInt32.ofNat registry.byId.length⟩
    (id, { byName := registry.byName.insert definition.name id,
           byId := registry.byId ++ [{ definition with id := id }] })

/-- Register a draft morpheme with an empty signature. -/
def registerName (registry : MorphemeRegistry) (name : String) (kind : MorphemeKind) :
    MorphemeId × MorphemeRegistry :=
  registry.register ⟨⟨0⟩, name, kind, ⟨""⟩, "", .draft⟩

/-- Look up a morpheme by its identifier. -/
def lookupId (registry : MorphemeRegistry) (id : MorphemeId) : Option MorphemeDef :=
  registry.byId[id.index.toNat]?

/-- Look up a morpheme by its name. -/
def lookup (registry : MorphemeRegistry) (name : String) : Option MorphemeDef :=
  match registry.byName.lookup name with
  | some id => registry.lookupId id
  | none => none

/-- Resolve a name to its identifier. -/
def resolve (registry : MorphemeRegistry) (name : String) : Option MorphemeId :=
  registry.byName.lookup name

/-- The name of a predicate head; an identifier without a definition is shown as `M`
and its number. -/
def headName (registry : MorphemeRegistry) : PredicateHead → String
  | .name name => name
  | .id id =>
    match registry.lookupId id with
    | some definition => definition.name
    | none => "M" ++ toString id.index.toNat

end MorphemeRegistry

end Factum
