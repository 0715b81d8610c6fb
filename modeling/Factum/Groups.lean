/-
This file is about the groups that arbitration forms and the choices it makes in them.

A group is listed under its key with the matches that have it, in their order. So the
groups are the same up to order for any two orders of iteration, and what arbitration
answers depends on the order of its matches only through what it does in a group: it
takes the last of the greatest, the first of the best, or a sum.
-/

import Factum.Arbitration

namespace Factum

variable {F : Type}

/-! ### Groups -/

/-- A group is the matches with its key. -/
theorem mem_groupBy_iff (hasher : Hash.Order String) (key : QueryResult F → String)
    (results : List (QueryResult F)) (name : String) (group : List (QueryResult F)) :
    (name, group) ∈ groupBy hasher key results ↔
      (∃ result ∈ results, key result = name) ∧ group = results.filter (key · = name) := by
  rw [groupBy, Hash.Map.mem_toList_iff, Hash.Map.get?_foldl_push]
  have empty : results.filter (key · = name) = [] ↔ ¬ ∃ result ∈ results, key result = name := by
    simp only [List.filter_eq_nil_iff, decide_eq_true_eq, not_exists, not_and]
  split_ifs with none
  · exact ⟨nofun, fun both => absurd both.1 (empty.mp none)⟩
  · rw [Option.some.injEq, eq_comm]
    exact (and_iff_right (not_not.mp (mt empty.mpr none))).symm

/-- Matches with one key form one group. -/
theorem groupBy_const (hasher : Hash.Order String) (name : String)
    {results : List (QueryResult F)} (some : results ≠ []) :
    groupBy hasher (fun _ => name) results = [(name, results)] := by
  have members : ∀ entry, entry ∈ groupBy hasher (fun _ => name) results ↔
      entry = (name, results) := by
    rintro ⟨other, group⟩
    obtain ⟨first, member⟩ := List.exists_mem_of_ne_nil results some
    rw [mem_groupBy_iff, Prod.mk.injEq]
    constructor
    · rintro ⟨⟨_, _, rfl⟩, isGroup⟩
      exact ⟨rfl, by rw [isGroup]; simp⟩
    · rintro ⟨rfl, rfl⟩
      exact ⟨⟨first, member, rfl⟩, by simp⟩
  have distinct : (groupBy hasher (fun _ => name) results).Nodup := by
    refine List.Nodup.of_map Prod.fst ?_
    rw [groupBy, Hash.Map.map_fst_toList]
    exact Hash.Map.nodup_keys _
  exact List.perm_singleton.mp ((List.perm_ext_iff_of_nodup distinct
    (List.nodup_singleton _)).mpr fun entry => by rw [members, List.mem_singleton])

/-! ### Choices -/

/-- An element that a comparison puts ahead of all the others in a list. -/
def Ahead {α : Type} (compare : α → α → Ordering) (winner : α) (list : List α) : Prop :=
  ∀ other ∈ list, other ≠ winner → compare winner other = .gt ∧ compare other winner ≠ .gt

theorem Ahead.congr {α : Type} {compare : α → α → Ordering} {winner : α} {list list' : List α}
    (ahead : Ahead compare winner list) (members : ∀ other ∈ list', other ∈ list) :
    Ahead compare winner list' :=
  fun other member => ahead other (members other member)

/-- What is chosen was there. -/
theorem mem_of_maxBy {α : Type} {compare : α → α → Ordering} {list : List α} {chosen : α}
    (isChosen : maxBy compare list = some chosen) : chosen ∈ list := by
  cases list with
  | nil => cases isChosen
  | cons first rest =>
    rw [maxBy, Option.some.injEq] at isChosen
    rw [← isChosen]
    clear isChosen
    induction rest generalizing first with
    | nil => exact List.mem_cons_self
    | cons next rest inductionHypothesis =>
      rw [List.foldl_cons]
      have kept := inductionHypothesis (if compare first next = .gt then first else next)
      split_ifs at kept ⊢
      · rcases List.mem_cons.mp kept with isFirst | later
        · rw [isFirst]
          exact List.mem_cons_self
        · exact List.mem_cons_of_mem _ (List.mem_cons_of_mem _ later)
      · exact List.mem_cons_of_mem _ kept

section Votes

variable (host : Host F)

/-- The matches with a canonical predicate. -/
def withSignature (signature : String) (results : List (QueryResult F)) : List (QueryResult F) :=
  results.filter (predicateSignature host ·.node.predicate = signature)

theorem withSignature_concat (signature : String) (results : List (QueryResult F))
    (last : QueryResult F) :
    withSignature host signature (results ++ [last]) =
      if predicateSignature host last.node.predicate = signature then
        withSignature host signature results ++ [last]
      else withSignature host signature results := by
  rw [withSignature, withSignature, List.filter_append]
  split_ifs with same
  · rw [List.filter_cons_of_pos (by simpa using same), List.filter_nil]
  · rw [List.filter_cons_of_neg (by simpa using same), List.filter_nil, List.append_nil]

variable [F32 F]

/-- The weight of a match in a vote. -/
def voteWeight (weights : AList (fun _ : String => F)) (result : QueryResult F) : F :=
  (weights.lookup (principalStr result.node.provenance)).getD (F32.lit 5 1)

/-- Add numbers up, from the first one on. -/
def sumOf : List F → F
  | [] => F32.lit 0 0
  | first :: rest => rest.foldl F32.add first

theorem sumOf_concat {numbers : List F} (some : numbers ≠ []) (last : F) :
    sumOf (numbers ++ [last]) = F32.add (sumOf numbers) last := by
  cases numbers with
  | nil => exact absurd rfl some
  | cons first rest => exact List.foldl_concat ..

/-- What a vote has for a predicate: the sum of the weights and the first match. -/
def voteFor (weights : AList (fun _ : String => F)) (group : List (QueryResult F))
    (signature : String) : Option (F × QueryResult F) :=
  (withSignature host signature group).head?.map fun first =>
    (sumOf ((withSignature host signature group).map (voteWeight weights)), first)

/-- What a vote has for a predicate after one more match for it. -/
def addVote (weights : AList (fun _ : String => F)) (last : QueryResult F) :
    Option (F × QueryResult F) → F × QueryResult F
  | some (sum, first) => (F32.add sum (voteWeight weights last), first)
  | none => (voteWeight weights last, last)

/-- A vote goes through its matches from the first to the last. -/
theorem tally_concat (hasher : Hash.Order String) (weights : AList (fun _ : String => F))
    (group : List (QueryResult F)) (last : QueryResult F) :
    tally hasher host weights (group ++ [last]) =
      ((tally hasher host weights group).1.insert
        (predicateSignature host last.node.predicate)
        (addVote weights last ((tally hasher host weights group).1.get?
          (predicateSignature host last.node.predicate))),
        F32.add (tally hasher host weights group).2 (voteWeight weights last)) := by
  rw [tally, List.foldl_concat]
  rfl

/-- A vote ends with the sum and the first match of each predicate, and with the total. -/
theorem tally_eq (hasher : Hash.Order String) (weights : AList (fun _ : String => F))
    (group : List (QueryResult F)) :
    (tally hasher host weights group).1.get? = voteFor host weights group ∧
    (tally hasher host weights group).2 =
      (group.map (voteWeight weights)).foldl F32.add (F32.lit 0 0) := by
  induction group using List.reverseRecOn with
  | nil => exact ⟨rfl, rfl⟩
  | append_singleton group last inductionHypothesis =>
    obtain ⟨entries, total⟩ := inductionHypothesis
    refine ⟨funext fun signature => ?_, ?_⟩
    · rw [tally_concat, Hash.Map.get?_insert, entries, voteFor, voteFor, voteFor,
        withSignature_concat]
      split_ifs with isLast differs differs
      · rw [isLast]
        cases here : withSignature host (predicateSignature host last.node.predicate) group with
        | nil => rfl
        | cons first rest =>
          rw [List.map_append, List.map_singleton, sumOf_concat (by simp)]
          rfl
      · exact absurd isLast.symm differs
      · exact absurd differs.symm isLast
      · rfl
    · rw [tally_concat, total, List.map_append, List.map_singleton, List.foldl_concat]

end Votes

/-! ### Collected answers -/

/-- Two answers with the same results and the same flag, or two that stop. -/
def SameResults : Option (Arbitrated F) → Option (Arbitrated F) → Prop
  | some left, some right => (∀ result, result ∈ left.1 ↔ result ∈ right.1) ∧ left.2 = right.2
  | none, none => True
  | _, _ => False

theorem SameResults.of_eq {left right : Option (Arbitrated F)} (same : left = right) :
    SameResults left right := by
  rw [same]
  cases right with
  | none => trivial
  | some answer => exact ⟨fun _ => Iff.rfl, rfl⟩

theorem SameResults.trans_symm {first left right : Option (Arbitrated F)}
    (same : SameResults first left) (same' : SameResults first right) :
    SameResults left right := by
  cases first with
  | none =>
    cases left with
    | none => exact same'
    | some _ => exact same.elim
  | some first =>
    cases left with
    | none => exact same.elim
    | some left =>
      cases right with
      | none => exact same'.elim
      | some right =>
        exact ⟨fun result => (same.1 result).symm.trans (same'.1 result),
          same.2.symm.trans same'.2⟩

theorem SameResults.symm {left right : Option (Arbitrated F)} (same : SameResults left right) :
    SameResults right left :=
  same.trans_symm (.of_eq rfl)

theorem mapM_eq_none {α β : Type} {f : α → Option β} {list : List α}
    (stops : none ∈ list.map f) : list.mapM f = none := by
  induction list with
  | nil => cases stops
  | cons first rest inductionHypothesis =>
    rw [List.mapM_cons]
    cases isFirst : f first with
    | none => rfl
    | some value =>
      rw [List.map_cons, isFirst, List.mem_cons] at stops
      rw [inductionHypothesis (stops.resolve_left nofun)]
      rfl

theorem mapM_eq_some {α β : Type} {f : α → Option β} {list : List α}
    (goesOn : none ∉ list.map f) : list.mapM f = some ((list.map f).filterMap id) := by
  induction list with
  | nil => rfl
  | cons first rest inductionHypothesis =>
    rw [List.map_cons, List.mem_cons, not_or] at goesOn
    rw [List.mapM_cons, inductionHypothesis goesOn.2]
    cases isFirst : f first with
    | none => exact absurd isFirst.symm goesOn.1
    | some value => simp [isFirst]

/-- Over a query pattern, arbitration is one group. -/
theorem arbitrate_some [F32 F] (hasher : Hash.Order String) (host : Host F)
    {results : List (QueryResult F)} (some : results ≠ []) (policy : ConflictPolicy F)
    (pattern : Predicate) :
    arbitrate hasher host results policy (.some pattern) =
      arbitrateGroup hasher host policy results := by
  rw [arbitrate, if_neg (by simpa using some), groupByPattern, groupBy_const hasher _ some,
    List.mapM_cons, List.mapM_nil]
  cases arbitrateGroup hasher host policy results with
  | none => rfl
  | some answer => simp [collectArbitrated]

end Factum
