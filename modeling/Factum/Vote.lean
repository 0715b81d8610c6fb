/-
This file proves what a weighted vote answers, for weights that are exact numbers and not
negative.

The sums of two predicates together are at most the total. So a predicate with more than
half of it outweighs every other one, is the greatest entry of the vote in whatever order
the entries come, and wins. Without such a predicate no one wins.
-/

import Factum.ByAuthority
import Mathlib.Algebra.BigOperators.Group.List.Basic
import Mathlib.Algebra.Order.BigOperators.Group.List
import Mathlib.Tactic.Linarith

namespace Factum

/-! ### Sums -/

theorem foldl_add_eq_sum (numbers : List ℚ) :
    ∀ start : ℚ, numbers.foldl F32.add start = start + numbers.sum := by
  induction numbers with
  | nil => exact fun start => (add_zero start).symm
  | cons first rest inductionHypothesis =>
    intro start
    rw [List.foldl_cons, inductionHypothesis, List.sum_cons, ← add_assoc]
    rfl

theorem sumOf_eq_sum (numbers : List ℚ) : sumOf numbers = numbers.sum := by
  cases numbers with
  | nil => exact lit_zero
  | cons first rest => rw [sumOf, foldl_add_eq_sum, List.sum_cons]

section Sums

variable (weights : AList (fun _ : String => ℚ)) (found : List (QueryResult ℚ))

/-- The total weight of a vote. -/
def totalWeight : ℚ := (found.map (voteWeight weights)).sum

/-- The summed weight of a predicate. -/
def weightFor (pred : Predicate) : ℚ :=
  ((found.filter (·.node.predicate = pred)).map (voteWeight weights)).sum

/-- A predicate whose summed weight is more than half of the total weight. -/
def HasMajority (pred : Predicate) : Prop :=
  totalWeight weights found / 2 < weightFor weights found pred

theorem majority_eq : majority weights found = totalWeight weights found / 2 := by
  have half : (F32.lit 5 1 : ℚ) = 1 / 2 := by
    show mkRat 5 (10 ^ 1) = 1 / 2
    norm_num [Rat.mkRat_eq_div]
  rw [majority, foldl_add_eq_sum, half, lit_zero, zero_add]
  exact mul_one_div _ _

variable {weights found}

/-- The weights of a vote are not negative when those in its map are not. -/
theorem voteWeight_nonneg (nonneg : ∀ principal weight,
    weights.lookup principal = some weight → 0 ≤ weight) (result : QueryResult ℚ) :
    0 ≤ voteWeight weights result := by
  rw [voteWeight]
  cases isWeight : weights.lookup (principalStr result.node.provenance) with
  | none =>
    show (0 : ℚ) ≤ mkRat 5 (10 ^ 1)
    norm_num [Rat.mkRat_eq_div]
  | some weight => exact nonneg _ weight isWeight

variable (found) in
/-- Two predicates together have at most the total weight. -/
theorem weightFor_add_le (nonneg : ∀ principal weight,
    weights.lookup principal = some weight → 0 ≤ weight) {pred pred' : Predicate}
    (differ : pred ≠ pred') :
    weightFor weights found pred + weightFor weights found pred' ≤ totalWeight weights found := by
  induction found with
  | nil => simp [weightFor, totalWeight]
  | cons first rest inductionHypothesis =>
    have weight := voteWeight_nonneg nonneg first
    have step : ∀ pred, weightFor weights (first :: rest) pred =
        (if first.node.predicate = pred then voteWeight weights first else 0) +
          weightFor weights rest pred := by
      intro pred
      rw [weightFor, weightFor]
      split_ifs with same
      · rw [List.filter_cons_of_pos (by simpa using same), List.map_cons, List.sum_cons]
      · rw [List.filter_cons_of_neg (by simpa using same), zero_add]
    have total : totalWeight weights (first :: rest) =
        voteWeight weights first + totalWeight weights rest := by
      rw [totalWeight, List.map_cons, List.sum_cons]
      rfl
    rw [step, step, total]
    by_cases isFirst : first.node.predicate = pred
    · rw [if_pos isFirst, if_neg fun isSecond => differ (isFirst.symm.trans isSecond)]
      linarith
    · rw [if_neg isFirst]
      split_ifs <;> linarith

/-- Every other predicate has less than one with a majority. -/
theorem HasMajority.unique (nonneg : ∀ principal weight,
    weights.lookup principal = some weight → 0 ≤ weight) {pred pred' : Predicate}
    (wins : HasMajority weights found pred) (wins' : HasMajority weights found pred') :
    pred = pred' := by
  by_contra differ
  have together := weightFor_add_le found nonneg differ
  rw [HasMajority] at wins wins'
  linarith

theorem totalWeight_perm {found' : List (QueryResult ℚ)} (perm : found.Perm found') :
    totalWeight weights found = totalWeight weights found' := (perm.map _).sum_eq

theorem HasMajority.of_perm {found' : List (QueryResult ℚ)} (perm : found.Perm found')
    {pred : Predicate} (wins : HasMajority weights found pred) :
    HasMajority weights found' pred := by
  have sums : weightFor weights found pred = weightFor weights found' pred :=
    ((perm.filter _).map _).sum_eq
  rw [HasMajority, ← totalWeight_perm perm, ← sums]
  exact wins

end Sums

/-! ### The outcome -/

/-- What a weighted vote is to answer: one match for the predicate that has a majority, or no
match and ambiguous when no predicate has one. -/
structure VoteAnswer (weights : AList (fun _ : String => ℚ)) (found : List (QueryResult ℚ))
    (answer : Arbitrated ℚ) : Prop where
  decided : ∀ result ∈ found, HasMajority weights found result.node.predicate →
    ∃ winner ∈ found, winner.node.predicate = result.node.predicate ∧ answer = ([winner], false)
  undecided : (∀ result ∈ found, ¬ HasMajority weights found result.node.predicate) →
    answer = ([], true)

section Outcome

variable {host : Host ℚ} {weights : AList (fun _ : String => ℚ)} {found : List (QueryResult ℚ)}

theorem voteSum_eq (tells : TellsMatches host found) {result : QueryResult ℚ}
    (member : result ∈ found) :
    voteSum host weights found result = weightFor weights found result.node.predicate := by
  have group : rivals host found result =
      found.filter (·.node.predicate = result.node.predicate) :=
    List.filter_congr fun other isOther => decide_eq_decide.mpr (tells.signature_iff isOther member)
  rw [voteSum, sumOf_eq_sum, group, weightFor]

/-- The best entry of a vote has the greatest sum. -/
theorem voteSum_le_of_maxBy {hasher : Hash.Order String} {best : String × ℚ × QueryResult ℚ}
    (isBest : maxBy (fun a b : String × ℚ × QueryResult ℚ => voteCmp a.2.1 b.2.1)
      (tally hasher host weights found).1.toList = some best) {result : QueryResult ℚ}
    (member : result ∈ found) : voteSum host weights found result ≤ best.2.1 := by
  have ranks : (fun a b : String × ℚ × QueryResult ℚ => voteCmp a.2.1 b.2.1) =
      fun a b => compare a.2.1 b.2.1 := by
    ext a b
    rw [voteCmp, partialCmp_eq, Option.getD_some]
  rw [ranks] at isBest
  obtain ⟨first, entry⟩ := exists_mem_tally host weights hasher member
  exact rank_le_of_maxBy isBest _ entry

theorem arbitrate_vote_answer (hasher : Hash.Order String) (tells : TellsMatches host found)
    (several : 2 ≤ found.length) (nonneg : ∀ principal weight,
      weights.lookup principal = some weight → 0 ≤ weight) (pattern : Predicate) :
    ∃ answer, arbitrate hasher host found (.weightedVote weights) (some pattern) = some answer ∧
      VoteAnswer weights found answer := by
  have notOne : found.length ≠ 1 := by omega
  have isThere : found ≠ [] := by
    rintro rfl
    cases several
  rw [arbitrate_some hasher host isThere]
  by_cases some : ∃ result ∈ found, HasMajority weights found result.node.predicate
  · obtain ⟨result, member, wins⟩ := some
    rw [arbitrateGroup_weightedVote host hasher weights notOne]
    cases isBest : maxBy (fun a b : String × ℚ × QueryResult ℚ => voteCmp a.2.1 b.2.1)
        (tally hasher host weights found).1.toList with
    | none =>
      obtain ⟨first, entry⟩ := exists_mem_tally host weights hasher member
      cases isEntries : (tally hasher host weights found).1.toList with
      | nil =>
        rw [isEntries] at entry
        cases entry
      | cons _ _ =>
        rw [isEntries] at isBest
        cases isBest
    | some best =>
      obtain ⟨signature, sum, winner⟩ := best
      obtain ⟨isFound, _, rfl⟩ := of_mem_tally host (mem_of_maxBy isBest)
      have least := voteSum_le_of_maxBy isBest member
      rw [voteSum_eq tells member] at least
      have leads : majority weights found < voteSum host weights found winner := by
        rw [majority_eq]
        exact lt_of_lt_of_le wins least
      have winnerWins : HasMajority weights found winner.node.predicate := by
        rw [majority_eq, voteSum_eq tells isFound] at leads
        exact leads
      refine ⟨([winner], false), if_pos (decide_eq_true leads), ?_, ?_⟩
      · intro other _ wins'
        exact ⟨winner, isFound, winnerWins.unique nonneg wins', rfl⟩
      · exact fun none => absurd wins (none result member)
  · have none : ∀ result ∈ found, ¬ HasMajority weights found result.node.predicate :=
      fun result member wins => some ⟨result, member, wins⟩
    refine ⟨([], true), ?_, fun result member wins => absurd wins (none result member),
      fun _ => rfl⟩
    refine arbitrateGroup_undecided host hasher weights notOne fun result member => ?_
    rw [majority_eq, voteSum_eq tells member]
    exact decide_eq_false (none result member)

/-- What a weighted vote is to answer does not depend on the order of the matches. -/
theorem VoteAnswer.agree {found' : List (QueryResult ℚ)} {answer answer' : Arbitrated ℚ}
    (isAnswer : VoteAnswer weights found answer) (isAnswer' : VoteAnswer weights found' answer')
    (perm : found.Perm found') : answer.2 = answer'.2 ∧
      answer.1.map (·.node.predicate) = answer'.1.map (·.node.predicate) := by
  by_cases some : ∃ result ∈ found, HasMajority weights found result.node.predicate
  · obtain ⟨result, member, wins⟩ := some
    obtain ⟨winner, _, same, rfl⟩ := isAnswer.decided result member wins
    obtain ⟨winner', _, same', rfl⟩ :=
      isAnswer'.decided result (perm.mem_iff.mp member) (wins.of_perm perm)
    exact ⟨rfl, by rw [List.map_singleton, List.map_singleton, same, same']⟩
  · have none : ∀ result ∈ found, ¬ HasMajority weights found result.node.predicate :=
      fun result member wins => some ⟨result, member, wins⟩
    rw [isAnswer.undecided none, isAnswer'.undecided fun result member wins =>
      none result (perm.mem_iff.mpr member) (wins.of_perm perm.symm)]
    exact ⟨rfl, rfl⟩

/-- A weighted vote over two matches or more is decided when a predicate has more than half
of the total weight, and for that predicate. It is so in any order of the matches and for any
order in which the hash maps iterate. -/
theorem arbitrate_weightedVote (dates : host.TellsDates)
    (produced : ∀ result ∈ found, Parser.Produces host result.node.predicate)
    (several : 2 ≤ found.length) (nonneg : ∀ principal weight,
      weights.lookup principal = some weight → 0 ≤ weight) (pattern : Predicate) :
    ∀ hasher, ∃ answer,
      arbitrate hasher host found (.weightedVote weights) (some pattern) = some answer ∧
      VoteAnswer weights found answer ∧
      ∀ hasher' found', found.Perm found' → ∃ answer',
        arbitrate hasher' host found' (.weightedVote weights) (some pattern) = some answer' ∧
        answer'.2 = answer.2 ∧
        answer'.1.map (·.node.predicate) = answer.1.map (·.node.predicate) := by
  intro hasher
  have tells := tellsMatches_of_produces dates produced
  obtain ⟨answer, answers, isAnswer⟩ :=
    arbitrate_vote_answer hasher tells several nonneg pattern
  refine ⟨answer, answers, isAnswer, fun hasher' found' perm => ?_⟩
  have tells' : TellsMatches host found' := fun a isA b isB =>
    tells a (perm.mem_iff.mpr isA) b (perm.mem_iff.mpr isB)
  obtain ⟨answer', answers', isAnswer'⟩ :=
    arbitrate_vote_answer hasher' tells' (perm.length_eq ▸ several) nonneg pattern
  obtain ⟨flags, predicates⟩ := isAnswer.agree isAnswer' perm
  exact ⟨answer', answers', flags.symm, predicates.symm⟩

end Outcome

/-- A vote in which the only predicate has all the weight. -/
theorem arbitrate_weightedVote_rated : ∃ answer,
    arbitrate (.asStored String) exactHost [rated "m" 4, rated "n" 9] (.weightedVote ∅)
      (some ⟨.name "up", [.var "x"], []⟩) = some answer ∧
    VoteAnswer ∅ [rated "m" 4, rated "n" 9] answer := by
  have produced : ∀ result ∈ [rated "m" 4, rated "n" 9],
      Parser.Produces exactHost result.node.predicate := by
    intro result member
    rcases List.mem_pair.mp member with rfl | rfl <;> exact rated_produced _ _
  have nonneg : ∀ (principal : String) (weight : ℚ),
      (∅ : AList fun _ : String => ℚ).lookup principal = some weight → 0 ≤ weight := nofun
  obtain ⟨answer, answers, isAnswer, _⟩ := arbitrate_weightedVote exactHost_tellsDates produced
    le_rfl nonneg ⟨.name "up", [.var "x"], []⟩ (.asStored String)
  exact ⟨answer, answers, isAnswer⟩

end Factum
