/-
This file is about matches that arbitration answers the same however they are listed.

Arbitration takes the last of the greatest or the first of the best, and it adds up numbers whose
sums may depend on the order. Matches are settled under a policy when none of that can make a
difference, in any order of the matches, with and without repetitions, and in any order in which
the maps of arbitration iterate.
-/

import Factum.Grouped
import Mathlib.Algebra.Order.Field.Rat

namespace Factum

variable {F : Type} [F32 F]

/-! ### Agreement and refusal -/

section Agreement

variable {host : Host F} {found listed : List (QueryResult F)}
  {lists : List (QueryResult F) → Prop}

end Agreement

/-! ### Votes -/

section Votes

variable (host : Host F) (weights : AList (fun _ : String => F))

/-- The order of the entries of a vote. -/
def entryCmp (a b : String × F × QueryResult F) : Ordering := voteCmp a.2.1 b.2.1

/-- What a vote answers from the entry that is chosen. -/
def voteAnswer (list : List (QueryResult F)) :
    Option (String × F × QueryResult F) → Option (Arbitrated F)
  | some (_, best, result) =>
    if F32.lt (majority weights list) best then some ([result], false) else some ([], true)
  | none => some ([], true)

theorem arbitrateGroup_voteAnswer (hasher : Hash.Order String) {list : List (QueryResult F)}
    (several : list.length ≠ 1) : arbitrateGroup hasher host (.weightedVote weights) list =
      voteAnswer weights list
        (maxBy entryCmp (tally hasher host weights list).1.toList) := by
  rw [arbitrateGroup_weightedVote host hasher weights several]
  rfl

variable {host weights}

variable {found listed : List (QueryResult F)} {lists : List (QueryResult F) → Prop}

theorem vote_cases (hasher : Hash.Order String) {list : List (QueryResult F)} (nonempty : list ≠ [])
    (pattern : Predicate) :
    arbitrate hasher host list (.weightedVote weights) (some pattern) = some ([], true) ∨
      ∃ winner, arbitrate hasher host list (.weightedVote weights) (some pattern) =
        some ([winner], false) := by
  by_cases one : list.length = 1
  · obtain ⟨only, rfl⟩ := List.length_eq_one_iff.mp one
    exact .inr ⟨only, arbitrate_singleton host hasher _ only pattern⟩
  · rw [arbitrate_some hasher host nonempty, arbitrateGroup_voteAnswer host weights hasher one]
    cases maxBy entryCmp (tally hasher host weights list).1.toList with
    | none => exact .inl rfl
    | some best =>
      rw [voteAnswer]
      split_ifs
      · exact .inr ⟨_, rfl⟩
      · exact .inl rfl

end Votes

/-! ### Stops -/

/-- Arbitration stops only under `HighestAuthority`, where several matches for a predicate have
none that ties with the greatest authority. -/
theorem stops_of_arbitrate {hasher : Hash.Order String} {host : Host F}
    {policy : ConflictPolicy F} {found : List (QueryResult F)} {pattern : Predicate}
    (stops : arbitrate hasher host found policy (some pattern) = none) :
    policy = .highestAuthority ∧ ∃ result ∈ found, NoneTop (rivals host found result) := by
  have nonempty : found ≠ [] := by
    rintro rfl
    cases stops
  have several : found.length ≠ 1 := by
    intro one
    obtain ⟨only, rfl⟩ := List.length_eq_one_iff.mp one
    rw [arbitrate_singleton] at stops
    cases stops
  cases policy with
  | latestWins =>
    rw [arbitrate_latestWins] at stops
    cases stops
  | highestAuthority =>
    rw [arbitrate_highestAuthority, ← grouped] at stops
    obtain ⟨result, member, isStop⟩ := grouped_eq_none_iff.mp stops
    exact ⟨rfl, result, member, highestAuthorityOf_eq_none_iff.mp isStop⟩
  | unanimous =>
    rw [arbitrate_some hasher host nonempty] at stops
    by_cases differ : ∃ one two, one ∈ found ∧ two ∈ found ∧
        one.node.predicate ≠ two.node.predicate
    · obtain ⟨one, two, isOne, isTwo, apart⟩ := differ
      rw [arbitrateGroup_unanimous host hasher isOne isTwo apart] at stops
      cases stops
    · obtain ⟨chosen, _, agreed⟩ := exists_arbitrateGroup_agreed host hasher nonempty differ
      rw [agreed] at stops
      cases stops
  | weightedVote weights =>
    rcases vote_cases hasher nonempty pattern with refused | ⟨winner, wins⟩
    · rw [refused] at stops
      cases stops
    · rw [wins] at stops
      cases stops
  | custom =>
    rw [arbitrate_some hasher host nonempty, arbitrateGroup_custom host hasher several] at stops
    cases stops

/-! ### Settled matches -/

theorem lt_of_voteCmp {score other : F} (greater : voteCmp score other = .gt) :
    F32.lt other score = true := by
  by_contra notMore
  unfold voteCmp F32.partialCmp at greater
  rw [if_neg notMore] at greater
  split_ifs at greater <;> cases greater

/-- Scores compare when maxima may be taken in any order and the order is transitive. -/
theorem scoresCompare_of
    (commutes : ∀ a b c : F, F32.max (F32.max a b) c = F32.max (F32.max a c) b)
    (transitive : ∀ a b c : F, F32.lt a b = true → F32.lt b c = true → F32.lt a c = true) :
    ScoresCompare F where
  ties_perm score scores scores' perm := by
    have same : greatest scores = greatest scores' :=
      perm.foldl_eq' (fun a _ b _ start => commutes start a b) _
    rw [same]
  above greater bounded := transitive _ _ _ bounded (lt_of_voteCmp greater)

end Factum
