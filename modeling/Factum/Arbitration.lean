/-
This file embeds conflict arbitration: several nodes match one query, and a policy
decides which of them answer it.

Arbitration groups its matches in hash maps and iterates over them, so it takes the
order of iteration as a parameter. Whatever a policy cannot decide sets the
ambiguous flag.
-/

import Factum.Serialize
import Factum.Library.HashMap

namespace Factum

/-- Variable bindings of a match. -/
abbrev Bindings := List (String × Term)

/-- A single query result. -/
structure QueryResult (F : Type) where
  node : Node F
  bindings : Bindings
deriving DecidableEq

/-- Conflict resolution policy. The weights of a vote map principals to numbers. -/
inductive ConflictPolicy (F : Type) where
  | latestWins
  | highestAuthority
  | unanimous
  | weightedVote (weights : AList (fun _ : String => F))
  | custom

section Keys

variable {F : Type} (host : Host F)

/-- The key of a ground position. -/
def termKey : Term → String
  | .var name => "var:" ++ name
  | .ent entity => "ent:" ++ entity.asStr
  | .lit literal => "lit:" ++ String.ofList (literal.toCanonicalString host)
  | .compound _ => "compound"
  | .list _ => "list"

/-- Sort strings in the order of their characters. -/
def sortStrings (parts : List String) : List String := parts.mergeSort fun a b => decide (a ≤ b)

/-- A comparable key from bindings. -/
def bindingKey (bindings : Bindings) : String :=
  String.intercalate "," (sortStrings (bindings.map fun binding =>
    binding.1 ++ "=" ++ termKey host binding.2))

/-- The key of a query pattern: its head, and its positions with variables left open. -/
def patternKey (pattern : Predicate) : String :=
  let head := match pattern.head with
    | .name name => name
    | .id _ => "<morpheme-id>"
  let positional := pattern.args.map fun arg => match arg with
    | .var _ => "?"
    | _ => termKey host arg
  let named := pattern.named.map fun entry => match entry.2 with
    | .var _ => entry.1 ++ "=?"
    | _ => entry.1 ++ "=" ++ termKey host entry.2
  String.intercalate "|" (head :: positional ++ sortStrings named)

/-- The signature of a predicate: its canonical text. -/
def predicateSignature (pred : Predicate) : String := canonicalPredicate host pred

end Keys

/-- Compare two validities by recency; `forever` is the least recent. -/
def validityRecencyCmp : Validity → Validity → Ordering
  | .forever, .forever => .eq
  | .forever, .window _ _ => .lt
  | .window _ _, .forever => .gt
  | .window from_ _, .window from_' _ => from_.cmp from_'

/-- The principal that a provenance votes for. -/
def principalStr : Provenance → String
  | .asserted by_ => by_.asStr
  | .extracted _ _ model => model.name
  | .verbatim _ _ => "document"
  | .summary _ _ => "document"
  | .derived _ _ => "derived"

/-- `iter.max_by(compare)`: the last of the greatest elements. -/
def maxBy {α : Type} (compare : α → α → Ordering) : List α → Option α
  | [] => none
  | first :: rest =>
    some (rest.foldl (fun best next => if compare best next = .gt then best else next) first)

section Groups

variable {F : Type} (hasher : Hash.Order String)

/-- Collect matches in a hash map under their keys and list its groups. -/
def groupBy (key : QueryResult F → String) (results : List (QueryResult F)) :
    List (String × List (QueryResult F)) :=
  (results.foldl (fun groups result => groups.push (key result) result)
    (Hash.Map.empty hasher)).toList

variable (host : Host F)

/-- Group matches by the structure of the query pattern, or by their bindings. -/
def groupByPattern (results : List (QueryResult F)) (pattern : Option Predicate) :
    List (String × List (QueryResult F)) :=
  match pattern with
  | none => groupBy hasher (fun result => bindingKey host result.bindings) results
  | some pattern => groupBy hasher (fun _ => patternKey host pattern) results

/-- Sub-group a group by canonical predicate. -/
def subGroupByPredicate (group : List (QueryResult F)) : List (List (QueryResult F)) :=
  (groupBy hasher (fun result => predicateSignature host result.node.predicate) group).map
    Prod.snd

end Groups

section Policies

variable {F : Type} [F32 F]

/-- Results and the ambiguous flag, as a policy builds them up. -/
abbrev Arbitrated (F : Type) := List (QueryResult F) × Bool

/-- Authority first, then the recency of the validity. -/
def latestCmp (a b : QueryResult F) : Ordering :=
  ((F32.partialCmp a.node.authority.value b.node.authority.value).getD .eq).then
    (validityRecencyCmp a.node.validity b.node.validity)

/-- Whether two authorities differ by less than 0.001. -/
def authorityTies (a b : F) : Bool := F32.lt (F32.abs (F32.sub a b)) (F32.lit 1 3)

/-- The `LatestWins` answer of a sub-group. -/
def latestWinsOf (sub : List (QueryResult F)) : Arbitrated F :=
  match sub with
  | [only] => ([only], false)
  | _ =>
    match maxBy latestCmp sub with
    | none => ([], false)
    | some winner =>
      let tied := sub.filter fun result =>
        authorityTies result.node.authority.value winner.node.authority.value &&
          validityRecencyCmp result.node.validity winner.node.validity == .eq
      ([winner], 1 < tied.length)

/-- The `HighestAuthority` answer of a sub-group; without a winner it stops. -/
def highestAuthorityOf (sub : List (QueryResult F)) : Option (Arbitrated F) :=
  match sub with
  | [only] => some ([only], false)
  | _ =>
    let maxAuth := (sub.map fun result => result.node.authority.value).foldl F32.max (F32.lit 0 0)
    let winners := sub.filter fun result => authorityTies result.node.authority.value maxAuth
    match winners with
    | [] => none
    | [winner] => some ([winner], false)
    | winner :: _ => some ([winner], true)

/-- Answers of several groups, one after the other. -/
def collectArbitrated (answers : List (Arbitrated F)) : Arbitrated F :=
  (answers.flatMap Prod.fst, answers.any Prod.snd)

variable (hasher : Hash.Order String) (host : Host F)

/-- The weights of a vote: the summed weight and the first match of each predicate, and the
total. -/
def tally (weights : AList (fun _ : String => F)) (group : List (QueryResult F)) :
    Hash.Map String (F × QueryResult F) × F :=
  group.foldl (fun (groups, total) result =>
    let signature := predicateSignature host result.node.predicate
    let weight := (weights.lookup (principalStr result.node.provenance)).getD (F32.lit 5 1)
    let entry := match groups.get? signature with
      | some (sum, first) => (F32.add sum weight, first)
      | none => (weight, result)
    (groups.insert signature entry, F32.add total weight))
    (Hash.Map.empty hasher, F32.lit 0 0)

/-- The answer of one group under a policy; an index out of bounds stops it. -/
def arbitrateGroup (policy : ConflictPolicy F) (group : List (QueryResult F)) :
    Option (Arbitrated F) :=
  match group with
  | [only] => some ([only], false)
  | _ =>
    match policy with
    | .latestWins =>
      some (collectArbitrated ((subGroupByPredicate hasher host group).map latestWinsOf))
    | .highestAuthority =>
      ((subGroupByPredicate hasher host group).mapM highestAuthorityOf).map collectArbitrated
    | .unanimous =>
      match group with
      | [] => none
      | first :: _ =>
        if group.all fun result => result.node.predicate = first.node.predicate then
          some ([first], false)
        else some ([], true)
    | .weightedVote weights =>
      let (groups, total) := tally hasher host weights group
      match maxBy (fun a b => (F32.partialCmp a.2.1 b.2.1).getD .eq) groups.toList with
      | some (_, best, result) =>
        if F32.lt (F32.mul total (F32.lit 5 1)) best then some ([result], false)
        else some ([], true)
      | none => some ([], true)
    | .custom => some ([], true)

/-- Arbitrate a set of matches: the results and whether any group stays undecided. -/
def arbitrate (results : List (QueryResult F)) (policy : ConflictPolicy F)
    (queryPattern : Option Predicate) : Option (Arbitrated F) :=
  if results.isEmpty then some ([], false)
  else
    ((groupByPattern hasher host results queryPattern).mapM fun group =>
      arbitrateGroup hasher host policy group.2).map collectArbitrated

end Policies

end Factum
