/-
This file is about the answer of one group of matches under each policy.

By authority a group is answered predicate by predicate: the rivals of a match are the matches
with its canonical predicate, one of them wins, and they may tie. The other policies answer the
group as a whole: with the first match if all agree, with the first match of the predicate that
outweighs the others, or not at all.
-/

import Factum.Groups

namespace Factum

variable {F : Type}

section Rivals

variable (host : Host F)

/-- The matches with the canonical predicate of a match. -/
def rivals (found : List (QueryResult F)) (result : QueryResult F) : List (QueryResult F) :=
  withSignature host (predicateSignature host result.node.predicate) found

theorem mem_rivals_iff {found : List (QueryResult F)} {result other : QueryResult F} :
    other ∈ rivals host found result ↔ other ∈ found ∧
      predicateSignature host other.node.predicate =
        predicateSignature host result.node.predicate := by
  rw [rivals, withSignature, List.mem_filter, decide_eq_true_eq]

/-- What the sub-groups answer is what the rivals of each match answer. -/
theorem mem_map_subGroups_iff {α : Type} (hasher : Hash.Order String)
    (found : List (QueryResult F)) (answerOf : List (QueryResult F) → α) (answer : α) :
    answer ∈ (subGroupByPredicate hasher host found).map answerOf ↔
      ∃ result ∈ found, answer = answerOf (rivals host found result) := by
  simp only [subGroupByPredicate, List.map_map, List.mem_map, Prod.exists, mem_groupBy_iff,
    Function.comp_apply]
  constructor
  · rintro ⟨_, _, ⟨⟨result, member, rfl⟩, rfl⟩, rfl⟩
    exact ⟨result, member, rfl⟩
  · rintro ⟨result, member, rfl⟩
    exact ⟨_, _, ⟨⟨result, member, rfl⟩, rfl⟩, rfl⟩

variable (hasher : Hash.Order String)

theorem subGroupByPredicate_nil : subGroupByPredicate hasher host [] = [] := by
  have groups : groupBy (F := F) hasher
      (fun result => predicateSignature host result.node.predicate) [] = [] := by
    refine List.eq_nil_iff_forall_not_mem.mpr ?_
    rintro ⟨name, group⟩ isGroup
    obtain ⟨⟨_, member, _⟩, _⟩ := (mem_groupBy_iff hasher _ [] name group).mp isGroup
    cases member
  rw [subGroupByPredicate, groups, List.map_nil]

theorem subGroupByPredicate_singleton (only : QueryResult F) :
    subGroupByPredicate hasher host [only] = [[only]] := by
  have groups : groupBy hasher (fun result => predicateSignature host result.node.predicate)
      [only] = [(predicateSignature host only.node.predicate, [only])] :=
    groupBy_const hasher _ (List.cons_ne_nil only [])
  rw [subGroupByPredicate, groups, List.map_singleton]

end Rivals

section Policies

variable [F32 F]

/-! ### What the policies compare -/

/-- The greatest of some authorities, and zero when there is none. -/
def greatest (authorities : List F) : F := authorities.foldl F32.max (F32.lit 0 0)

/-- The matches whose authority ties with the greatest. -/
def topOf (sub : List (QueryResult F)) : List (QueryResult F) :=
  sub.filter fun result => authorityTies result.node.authority.value
    (greatest (sub.map (·.node.authority.value)))

/-- The sum of the weights of a match and its rivals. -/
def voteSum (host : Host F) (weights : AList (fun _ : String => F))
    (found : List (QueryResult F)) (result : QueryResult F) : F :=
  sumOf ((rivals host found result).map (voteWeight weights))

/-- Half of the total weight. -/
def majority (weights : AList (fun _ : String => F)) (found : List (QueryResult F)) : F :=
  F32.mul ((found.map (voteWeight weights)).foldl F32.add (F32.lit 0 0)) (F32.lit 5 1)

/-- The order of votes by their weight. -/
def voteCmp (a b : F) : Ordering := (F32.partialCmp a b).getD .eq

/-! ### One predicate -/

theorem latestWinsOf_winner {sub : List (QueryResult F)} (nonempty : sub ≠ []) :
    ∃ winner ∈ sub, (latestWinsOf sub).1 = [winner] := by
  unfold latestWinsOf
  split
  · exact ⟨_, List.mem_singleton_self _, rfl⟩
  · cases isWinner : maxBy latestCmp sub with
    | none =>
      cases sub with
      | nil => exact absurd rfl nonempty
      | cons first rest => cases isWinner
    | some winner => exact ⟨winner, mem_of_maxBy isWinner, rfl⟩

theorem highestAuthorityOf_several {sub : List (QueryResult F)} (several : sub.length ≠ 1) :
    highestAuthorityOf sub = match topOf sub with
      | [] => none
      | [winner] => some ([winner], false)
      | winner :: _ => some ([winner], true) := by
  unfold highestAuthorityOf
  split
  · exact absurd rfl several
  · rfl

theorem highestAuthorityOf_winner {sub : List (QueryResult F)} {answer : Arbitrated F}
    (ran : highestAuthorityOf sub = some answer) : ∃ winner ∈ sub, answer.1 = [winner] := by
  by_cases one : sub.length = 1
  · obtain ⟨only, rfl⟩ := List.length_eq_one_iff.mp one
    rw [highestAuthorityOf, Option.some.injEq] at ran
    exact ⟨only, List.mem_singleton_self _, by rw [← ran]⟩
  · rw [highestAuthorityOf_several one] at ran
    have top : ∀ winner ∈ topOf sub, winner ∈ sub := fun winner member =>
      (List.mem_filter.mp member).1
    cases isTop : topOf sub with
    | nil =>
      rw [isTop] at ran
      cases ran
    | cons winner others =>
      have member : winner ∈ sub := top winner (isTop ▸ List.mem_cons_self)
      rw [isTop] at ran
      cases others with
      | nil => exact ⟨winner, member, by rw [← Option.some.inj ran]⟩
      | cons other others => exact ⟨winner, member, by rw [← Option.some.inj ran]⟩

/-! ### A group -/

variable (host : Host F)

theorem arbitrateGroup_latestWins (hasher : Hash.Order String) {group : List (QueryResult F)}
    (several : group.length ≠ 1) :
    arbitrateGroup hasher host .latestWins group =
      some (collectArbitrated ((subGroupByPredicate hasher host group).map latestWinsOf)) := by
  unfold arbitrateGroup
  split
  · exact absurd rfl several
  · rfl

theorem arbitrateGroup_highestAuthority (hasher : Hash.Order String)
    {group : List (QueryResult F)} (several : group.length ≠ 1) :
    arbitrateGroup hasher host .highestAuthority group =
      ((subGroupByPredicate hasher host group).mapM highestAuthorityOf).map
        collectArbitrated := by
  unfold arbitrateGroup
  split
  · exact absurd rfl several
  · rfl

/-- Matches with one predicate are unanimous. -/
theorem arbitrateGroup_agreed (hasher : Hash.Order String) {first : QueryResult F}
    {rest : List (QueryResult F)}
    (same : ∀ result ∈ rest, result.node.predicate = first.node.predicate) :
    arbitrateGroup hasher host .unanimous (first :: rest) = some ([first], false) := by
  cases rest with
  | nil => rfl
  | cons second rest =>
    have agreed : ((first :: second :: rest).all fun result =>
        result.node.predicate = first.node.predicate) = true := by
      refine List.all_eq_true.mpr fun result member => decide_eq_true ?_
      rcases List.mem_cons.mp member with rfl | later
      · rfl
      · exact same result later
    unfold arbitrateGroup
    dsimp only
    rw [agreed, if_pos rfl]

/-- Matches with two predicates are not unanimous. -/
theorem arbitrateGroup_unanimous (hasher : Hash.Order String) {group : List (QueryResult F)}
    {one two : QueryResult F} (isOne : one ∈ group) (isTwo : two ∈ group)
    (differ : one.node.predicate ≠ two.node.predicate) :
    arbitrateGroup hasher host .unanimous group = some ([], true) := by
  cases group with
  | nil => cases isOne
  | cons first rest =>
    have mixed : ((first :: rest).all fun result =>
        result.node.predicate = first.node.predicate) = false := by
      rw [List.all_eq_false]
      by_cases same : one.node.predicate = first.node.predicate
      · refine ⟨two, isTwo, ?_⟩
        rw [← same]
        simpa using Ne.symm differ
      · exact ⟨one, isOne, by simpa using same⟩
    cases rest with
    | nil =>
      rw [List.mem_singleton] at isOne isTwo
      exact absurd (by rw [isOne, isTwo]) differ
    | cons second rest =>
      unfold arbitrateGroup
      dsimp only
      rw [mixed, if_neg Bool.false_ne_true]

/-- Matches without two predicates are unanimous. -/
theorem exists_arbitrateGroup_agreed (hasher : Hash.Order String) {group : List (QueryResult F)}
    (nonempty : group ≠ [])
    (same : ¬ ∃ one two, one ∈ group ∧ two ∈ group ∧ one.node.predicate ≠ two.node.predicate) :
    ∃ chosen ∈ group, arbitrateGroup hasher host .unanimous group = some ([chosen], false) := by
  cases group with
  | nil => exact absurd rfl nonempty
  | cons first rest =>
    refine ⟨first, List.mem_cons_self, arbitrateGroup_agreed host hasher fun result member => ?_⟩
    by_contra differ
    exact same ⟨result, first, List.mem_cons_of_mem _ member, List.mem_cons_self, differ⟩

theorem arbitrateGroup_custom (hasher : Hash.Order String) {group : List (QueryResult F)}
    (several : group.length ≠ 1) :
    arbitrateGroup hasher host .custom group = some ([], true) := by
  unfold arbitrateGroup
  split
  · exact absurd rfl several
  · rfl

theorem arbitrateGroup_weightedVote (hasher : Hash.Order String)
    (weights : AList (fun _ : String => F)) {group : List (QueryResult F)}
    (several : group.length ≠ 1) :
    arbitrateGroup hasher host (.weightedVote weights) group =
      match maxBy (fun a b => voteCmp a.2.1 b.2.1) (tally hasher host weights group).1.toList with
      | some (_, best, result) =>
        if F32.lt (majority weights group) best then some ([result], false) else some ([], true)
      | none => some ([], true) := by
  rw [majority, ← (tally_eq host hasher weights group).2]
  unfold arbitrateGroup
  split
  · exact absurd rfl several
  · rfl

/-- An entry of a vote has a match and the sum of the weights of its rivals. -/
theorem mem_tally_iff (hasher : Hash.Order String) (weights : AList (fun _ : String => F))
    (group : List (QueryResult F)) (signature : String) (sum : F) (first : QueryResult F) :
    (signature, sum, first) ∈ (tally hasher host weights group).1.toList ↔
      (withSignature host signature group).head? = some first ∧
        sum = sumOf ((withSignature host signature group).map (voteWeight weights)) := by
  rw [Hash.Map.mem_toList_iff, (tally_eq host hasher weights group).1, voteFor,
    Option.map_eq_some_iff]
  simp only [Prod.mk.injEq]
  constructor
  · rintro ⟨_, isFirst, rfl, rfl⟩
    exact ⟨isFirst, rfl⟩
  · rintro ⟨isFirst, rfl⟩
    exact ⟨first, isFirst, rfl, rfl⟩

theorem of_mem_tally {hasher : Hash.Order String} {weights : AList (fun _ : String => F)}
    {group : List (QueryResult F)} {signature : String} {sum : F} {first : QueryResult F}
    (entry : (signature, sum, first) ∈ (tally hasher host weights group).1.toList) :
    first ∈ group ∧ predicateSignature host first.node.predicate = signature ∧
      sum = voteSum host weights group first := by
  obtain ⟨isFirst, isSum⟩ := (mem_tally_iff host hasher weights group _ _ _).mp entry
  have member := List.mem_filter.mp (List.mem_of_mem_head? isFirst)
  have same := of_decide_eq_true member.2
  refine ⟨member.1, same, ?_⟩
  rw [voteSum, rivals, same]
  exact isSum

/-- A vote without a majority. -/
theorem arbitrateGroup_undecided (hasher : Hash.Order String)
    (weights : AList (fun _ : String => F)) {group : List (QueryResult F)}
    (several : group.length ≠ 1)
    (undecided : ∀ result ∈ group,
      F32.lt (majority weights group) (voteSum host weights group result) = false) :
    arbitrateGroup hasher host (.weightedVote weights) group = some ([], true) := by
  rw [arbitrateGroup_weightedVote host hasher weights several]
  split
  · rename_i signature best result isBest
    obtain ⟨member, _, isSum⟩ := of_mem_tally host (mem_of_maxBy isBest)
    rw [isSum, undecided result member, if_neg Bool.false_ne_true]
  · rfl

/-- A vote has an entry for the predicate of each match. -/
theorem exists_mem_tally (weights : AList (fun _ : String => F)) (hasher : Hash.Order String)
    {group : List (QueryResult F)} {result : QueryResult F} (member : result ∈ group) :
    ∃ first, (predicateSignature host result.node.predicate,
      voteSum host weights group result, first) ∈ (tally hasher host weights group).1.toList := by
  have isRival : result ∈ rivals host group result := (mem_rivals_iff host).mpr ⟨member, rfl⟩
  cases isRivals : rivals host group result with
  | nil =>
    rw [isRivals] at isRival
    cases isRival
  | cons first rest =>
    refine ⟨first, (mem_tally_iff host hasher weights group _ _ _).mpr ⟨?_, rfl⟩⟩
    rw [← rivals, isRivals]
    rfl

/-! ### All matches -/

variable (hasher : Hash.Order String)

theorem arbitrate_singleton (policy : ConflictPolicy F) (only : QueryResult F)
    (pattern : Predicate) :
    arbitrate hasher host [only] policy (some pattern) = some ([only], false) := by
  rw [arbitrate_some hasher host (List.cons_ne_nil _ _)]
  rfl

/-- Under `LatestWins` each sub-group is answered. -/
theorem arbitrate_latestWins (found : List (QueryResult F)) (pattern : Predicate) :
    arbitrate hasher host found .latestWins (some pattern) =
      some (collectArbitrated ((subGroupByPredicate hasher host found).map latestWinsOf)) := by
  match found with
  | [] =>
    rw [subGroupByPredicate_nil]
    rfl
  | [only] =>
    rw [arbitrate_some hasher host (List.cons_ne_nil _ _), subGroupByPredicate_singleton]
    rfl
  | first :: second :: rest =>
    rw [arbitrate_some hasher host (List.cons_ne_nil _ _),
      arbitrateGroup_latestWins host hasher (by simp)]

/-- Under `HighestAuthority` each sub-group is answered. -/
theorem arbitrate_highestAuthority (found : List (QueryResult F)) (pattern : Predicate) :
    arbitrate hasher host found .highestAuthority (some pattern) =
      ((subGroupByPredicate hasher host found).mapM highestAuthorityOf).map
        collectArbitrated := by
  match found with
  | [] =>
    rw [subGroupByPredicate_nil]
    rfl
  | [only] =>
    rw [arbitrate_some hasher host (List.cons_ne_nil _ _), subGroupByPredicate_singleton]
    rfl
  | first :: second :: rest =>
    rw [arbitrate_some hasher host (List.cons_ne_nil _ _),
      arbitrateGroup_highestAuthority host hasher (by simp)]

end Policies

end Factum
