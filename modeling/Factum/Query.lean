/-
This file embeds the query engine: pattern matching with bindings, the selection of
candidates through an index, the filters, and the hand-over to arbitration.
-/

import Factum.Arbitration
import Factum.Store

namespace Factum

/-- A query: a predicate pattern and an optional entity to look candidates up by. -/
structure Query where
  pattern : Predicate
  entityFilter : Option EntityId

/-- Query options: policy, time, minimum confidence and permissions. -/
structure QueryOptions (F : Type) where
  policy : ConflictPolicy F
  now : DateTime
  minConf : Confidence F
  perm : PermissionContext

/-- A set of query results. -/
structure ResultSet (F : Type) where
  results : List (QueryResult F)
  ambiguous : Bool
deriving DecidableEq

/-! ### Pattern matching -/

mutual

/-- Match a query pattern against a concrete predicate, for the variable bindings. -/
def matchPattern : (pattern concrete : Predicate) → Option Bindings
  | ⟨head, args, named⟩, concrete =>
    match head, concrete.head with
    | .name patternName, .name concreteName =>
      if patternName ≠ concreteName then none
      else if args.length ≠ concrete.args.length then none
      else
        match matchTerms args concrete.args [] with
        | none => none
        | some bindings => matchNamed named concrete.named bindings
    | _, _ => none
termination_by structural pattern => pattern

/-- Match a pattern term against a concrete term under the bindings so far. -/
def matchTerm : (pattern concrete : Term) → Bindings → Option Bindings
  | .var name, concrete, bindings =>
    match bindings.find? (·.1 == name) with
    | some (_, existing) => if existing = concrete then some bindings else none
    | none => some (bindings ++ [(name, concrete)])
  | .ent entity, concrete, bindings => if concrete = .ent entity then some bindings else none
  | .lit literal, concrete, bindings => if concrete = .lit literal then some bindings else none
  | .compound pred, concrete, bindings =>
    match concrete with
    | .compound concretePred =>
      -- the bindings of a nested pattern are dropped
      if (matchPattern pred concretePred).isSome then some bindings else none
    | _ => none
  | .list items, concrete, bindings =>
    match concrete with
    | .list concreteItems =>
      if items.length ≠ concreteItems.length then none
      else matchTerms items concreteItems bindings
    | _ => none
termination_by structural pattern => pattern

/-- Match terms pairwise, from left to right. -/
def matchTerms : (patterns concretes : List Term) → Bindings → Option Bindings
  | [], _, bindings => some bindings
  | _ :: _, [], bindings => some bindings
  | pattern :: patterns, concrete :: concretes, bindings =>
    match matchTerm pattern concrete bindings with
    | none => none
    | some bindings => matchTerms patterns concretes bindings
termination_by structural patterns => patterns

/-- Match named arguments: each against the first concrete argument under its key. -/
def matchNamed : (patterns : List (String × Term)) → List (String × Term) → Bindings →
    Option Bindings
  | [], _, bindings => some bindings
  | (key, pattern) :: patterns, concretes, bindings =>
    match concretes.find? (·.1 == key) with
    | none => none
    | some (_, concrete) =>
      match matchTerm pattern concrete bindings with
      | none => none
      | some bindings => matchNamed patterns concretes bindings
termination_by structural patterns => patterns

end

namespace FactumStore

variable {F B : Type} [F32 F] [StorageBackend F B]

/-- Get candidate nodes: by the entity filter, or by the head of the pattern. -/
def getCandidates (q : Query) : StoreM F B (List (Node F)) := do
  match q.entityFilter with
  | some entity => lookupByEntity entity
  | none => lookupByPred ((← get).registry.headName q.pattern.head)

/-- The filter on candidates: permission, validity and confidence. -/
def passesFilters (options : QueryOptions F) (node : Node F) : Bool :=
  checkPermission node options.perm && node.isActiveValidAt options.now &&
    !F32.lt node.confidence.value options.minConf.value

/-- The matches that a query hands to arbitration. -/
def queryMatches (q : Query) (options : QueryOptions F) : StoreM F B (List (QueryResult F)) := do
  let candidates ← getCandidates q
  let filtered := candidates.filter (passesFilters options)
  return filtered.filterMap fun node =>
    (matchPattern q.pattern node.predicate).map fun bindings => ⟨node, bindings⟩

/-- Execute a query. Arbitration iterates over hash maps in the given order. -/
def query (hasher : Hash.Order String) (host : Host F) (q : Query) (options : QueryOptions F) :
    StoreM F B (ResultSet F) := do
  let found ← queryMatches q options
  match arbitrate hasher host found options.policy (some q.pattern) with
  | some (results, ambiguous) => return ⟨results, ambiguous⟩
  | none => throw .panic

end FactumStore

end Factum
