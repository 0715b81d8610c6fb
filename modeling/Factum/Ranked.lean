/-
This file is about the matches of one predicate when their authorities are exact numbers.

A match ranks by its authority and then by how recent its validity is, and the comparisons
of the code are those of the ranks. So the latest match has the greatest rank, and the one
of the highest authority is near the greatest authority. What the sub-groups answer is
collected, one match for each canonical predicate.
-/

import Factum.Policies
import Mathlib.Algebra.Order.Field.Rat
import Mathlib.Data.Int.ConditionallyCompleteOrder
import Mathlib.Data.Prod.Lex
import Mathlib.Order.WithBot
import Mathlib.Tactic.NormNum

namespace Factum

/-! ### Ranks -/

/-- How recent a validity is: `forever` is the least recent, and a window is as recent as its
start. -/
def Validity.recency : Validity → WithBot (ℤ ×ₗ ℕ)
  | .forever => ⊥
  | .window from_ _ => ↑(toLex (from_.timestamp, from_.subsecNanos))

theorem compare_toLex {α β : Type} [LinearOrder α] [LinearOrder β] (a a' : α) (b b' : β) :
    compare (toLex (a, b)) (toLex (a', b')) = (compare a a').then (compare b b') := by
  rw [Prod.Lex.compare_def]
  rfl

theorem validityRecencyCmp_eq (a b : Validity) :
    validityRecencyCmp a b = compare a.recency b.recency := by
  cases a with
  | forever =>
    cases b with
    | forever => rfl
    | window from_ until_ => exact (compare_lt_iff_lt.mpr (WithBot.bot_lt_coe _)).symm
  | window from_ until_ =>
    cases b with
    | forever => exact (compare_gt_iff_gt.mpr (WithBot.bot_lt_coe _)).symm
    | window from_' until_' =>
      rw [validityRecencyCmp, DateTime.cmp, ← compare_toLex, ← cmp_eq_compare, ← cmp_eq_compare]
      exact (WithBot.coe_strictMono.cmp_map_eq _ _).symm

theorem partialCmp_eq (a b : ℚ) : F32.partialCmp a b = some (compare a b) := by
  rw [F32.partialCmp]
  rcases lt_trichotomy a b with less | same | greater
  · rw [compare_lt_iff_lt.mpr less]
    simp [F32.eq, F32.lt, less, less.ne]
  · simp [F32.eq, same]
  · rw [compare_gt_iff_gt.mpr greater]
    simp [F32.eq, F32.lt, greater, greater.ne', greater.not_gt]

/-- The rank of a match: its authority, then the recency of its validity. -/
def rank (result : QueryResult ℚ) : ℚ ×ₗ WithBot (ℤ ×ₗ ℕ) :=
  toLex (result.node.authority.value, result.node.validity.recency)

theorem latestCmp_eq (a b : QueryResult ℚ) : latestCmp a b = compare (rank a) (rank b) := by
  rw [latestCmp, partialCmp_eq, validityRecencyCmp_eq, rank, rank, compare_toLex]
  rfl

/-- What is chosen by a comparison of ranks has the greatest rank. -/
theorem rank_le_of_maxBy {α β : Type} [LinearOrder β] {rank : α → β} {list : List α} {chosen : α}
    (isChosen : maxBy (fun a b => compare (rank a) (rank b)) list = some chosen) :
    ∀ other ∈ list, rank other ≤ rank chosen := by
  cases list with
  | nil => cases isChosen
  | cons first rest =>
    rw [maxBy, Option.some.injEq] at isChosen
    rw [← isChosen]
    clear isChosen
    induction rest generalizing first with
    | nil =>
      intro other member
      rw [List.mem_singleton.mp member]
      exact le_rfl
    | cons next rest inductionHypothesis =>
      intro other member
      rw [List.foldl_cons]
      have kept : ∀ better, rank first ≤ rank better → rank next ≤ rank better →
          rank other ≤ rank (rest.foldl (fun best next =>
            if compare (rank best) (rank next) = .gt then best else next) better) := by
        intro better aboveFirst aboveNext
        have greatest := inductionHypothesis better
        rcases List.mem_cons.mp member with rfl | later
        · exact aboveFirst.trans (greatest better List.mem_cons_self)
        · rcases List.mem_cons.mp later with rfl | later
          · exact aboveNext.trans (greatest better List.mem_cons_self)
          · exact greatest other (List.mem_cons_of_mem _ later)
      split_ifs with ahead
      · exact kept first le_rfl (compare_gt_iff_gt.mp ahead).le
      · exact kept next (not_lt.mp (mt compare_gt_iff_gt.mpr ahead)) le_rfl

/-! ### One answer for each predicate -/

/-- A filter keeps another element besides one that it keeps. -/
theorem one_lt_length_filter_iff {α : Type} [DecidableEq α] {list : List α} {keeps : α → Bool}
    {kept : α} (member : kept ∈ list) (isKept : keeps kept = true) :
    1 < (list.filter keeps).length ↔ ∃ other ∈ list.erase kept, keeps other = true := by
  have split : (list.filter keeps).length = ((list.erase kept).filter keeps).length + 1 := by
    rw [((List.perm_cons_erase member).filter keeps).length_eq, List.filter_cons_of_pos isKept,
      List.length_cons]
  rw [split, Nat.lt_add_left_iff_pos, List.length_pos_iff_exists_mem]
  simp only [List.mem_filter]

section Collected

variable {F : Type} (host : Host F)

/-- An answer that has one match for each canonical predicate, the one that is given for its
rivals, and that is ambiguous when one of these is. -/
structure Collected (found : List (QueryResult F)) (answerOf : List (QueryResult F) → Arbitrated F)
    (answer : Arbitrated F) : Prop where
  distinct : (answer.1.map (predicateSignature host ·.node.predicate)).Nodup
  covered : ∀ result ∈ found, ∃ winner ∈ answer.1,
    predicateSignature host winner.node.predicate = predicateSignature host result.node.predicate
  won : ∀ winner ∈ answer.1, winner ∈ found ∧
    ∃ tied, answerOf (rivals host found winner) = ([winner], tied)
  ambiguous : answer.2 = true ↔
    ∃ winner ∈ answer.1, (answerOf (rivals host found winner)).2 = true

/-- When one of the rivals is given for them, the collected answer has one for each predicate. -/
theorem collected_subGroups (hasher : Hash.Order String) {found : List (QueryResult F)}
    {answerOf : List (QueryResult F) → Arbitrated F}
    (picks : ∀ result ∈ found, ∃ winner ∈ rivals host found result, ∃ tied,
      answerOf (rivals host found result) = ([winner], tied)) :
    Collected host found answerOf
      (collectArbitrated ((subGroupByPredicate hasher host found).map answerOf)) := by
  have given : ∀ winner, winner ∈ (collectArbitrated
        ((subGroupByPredicate hasher host found).map answerOf)).1 ↔
      ∃ result ∈ found, winner ∈ (answerOf (rivals host found result)).1 := by
    intro winner
    simp only [collectArbitrated, List.mem_flatMap, mem_map_subGroups_iff]
    constructor
    · rintro ⟨_, ⟨result, member, rfl⟩, isWinner⟩
      exact ⟨result, member, isWinner⟩
    · rintro ⟨result, member, isWinner⟩
      exact ⟨_, ⟨result, member, rfl⟩, isWinner⟩
  -- the rivals of the winner are the rivals among which it wins
  have picked : ∀ result ∈ found, ∃ winner ∈ found, ∃ tied,
      predicateSignature host winner.node.predicate =
          predicateSignature host result.node.predicate ∧
        rivals host found winner = rivals host found result ∧
        answerOf (rivals host found result) = ([winner], tied) := by
    intro result member
    obtain ⟨winner, isRival, tied, isAnswer⟩ := picks result member
    obtain ⟨isFound, same⟩ := (mem_rivals_iff host).mp isRival
    exact ⟨winner, isFound, tied, same, congrArg (withSignature host · found) same, isAnswer⟩
  constructor
  · have keys : (collectArbitrated ((subGroupByPredicate hasher host found).map answerOf)).1.map
          (predicateSignature host ·.node.predicate) =
        (groupBy hasher (fun result => predicateSignature host result.node.predicate) found).map
          Prod.fst := by
      rw [collectArbitrated, subGroupByPredicate, List.map_flatMap, List.map_map,
        List.flatMap_map, ← List.flatMap_singleton' (List.map _ _), List.flatMap_map]
      refine List.flatMap_congr ?_
      rintro ⟨name, group⟩ isGroup
      obtain ⟨⟨result, member, rfl⟩, rfl⟩ := (mem_groupBy_iff hasher _ found _ _).mp isGroup
      obtain ⟨winner, _, tied, same, _, isAnswer⟩ := picked result member
      show (answerOf (rivals host found result)).1.map _ = _
      rw [isAnswer, List.map_singleton, same]
    rw [keys, groupBy, Hash.Map.map_fst_toList]
    exact Hash.Map.nodup_keys _
  · intro result member
    obtain ⟨winner, _, tied, same, _, isAnswer⟩ := picked result member
    refine ⟨winner, (given winner).mpr ⟨result, member, ?_⟩, same⟩
    rw [isAnswer]
    exact List.mem_singleton_self _
  · intro winner isWinner
    obtain ⟨result, member, isAnswer⟩ := (given winner).mp isWinner
    obtain ⟨picked, isFound, tied, _, sameRivals, isPicked⟩ := picked result member
    rw [isPicked, List.mem_singleton] at isAnswer
    rw [isAnswer, sameRivals]
    exact ⟨isFound, tied, isPicked⟩
  · simp only [collectArbitrated, List.any_eq_true, mem_map_subGroups_iff]
    constructor
    · rintro ⟨_, ⟨result, member, rfl⟩, isTied⟩
      obtain ⟨winner, _, tied, _, sameRivals, isAnswer⟩ := picked result member
      refine ⟨winner, (given winner).mpr ⟨result, member, ?_⟩, ?_⟩
      · rw [isAnswer]
        exact List.mem_singleton_self _
      · rw [sameRivals]
        exact isTied
    · rintro ⟨winner, isWinner, isTied⟩
      obtain ⟨result, member, isAnswer⟩ := (given winner).mp isWinner
      obtain ⟨picked, _, tied, _, sameRivals, isPicked⟩ := picked result member
      rw [isPicked, List.mem_singleton] at isAnswer
      rw [isAnswer, sameRivals] at isTied
      exact ⟨_, ⟨result, member, rfl⟩, isTied⟩

end Collected

/-! ### The winner of a predicate -/

theorem authorityTies_iff (a b : ℚ) : authorityTies a b = true ↔ |a - b| < 1 / 1000 := by
  have magnitude : F32.abs (F32.sub a b) = |a - b| := by
    show (if a - b < 0 then -(a - b) else a - b) = |a - b|
    split_ifs with negative
    · exact (abs_of_neg negative).symm
    · exact (abs_of_nonneg (not_lt.mp negative)).symm
  have bound : (F32.lit 1 3 : ℚ) = 1 / 1000 := by
    show mkRat 1 (10 ^ 3) = 1 / 1000
    norm_num [Rat.mkRat_eq_div]
  rw [authorityTies, magnitude, bound]
  exact decide_eq_true_iff

/-- A match that is less than 0.001 away from the authority of another one and as recent. -/
def TiesLatest (winner other : QueryResult ℚ) : Prop :=
  |other.node.authority.value - winner.node.authority.value| < 1 / 1000 ∧
    other.node.validity.recency = winner.node.validity.recency

instance (winner other : QueryResult ℚ) : Decidable (TiesLatest winner other) := instDecidableAnd

theorem tiesLatest_self (winner : QueryResult ℚ) : TiesLatest winner winner :=
  ⟨by rw [sub_self, abs_zero]; norm_num, rfl⟩

/-- The latest match of a predicate has the greatest rank. -/
theorem latestWinsOf_eq {sub : List (QueryResult ℚ)} (nonempty : sub ≠ []) :
    ∃ winner ∈ sub, (∀ other ∈ sub, rank other ≤ rank winner) ∧
      latestWinsOf sub =
        ([winner], decide (∃ other ∈ sub.erase winner, TiesLatest winner other)) := by
  have flag : ∀ {winner}, winner ∈ sub → decide (1 < (sub.filter fun result =>
        authorityTies result.node.authority.value winner.node.authority.value &&
          validityRecencyCmp result.node.validity winner.node.validity == .eq).length) =
      decide (∃ other ∈ sub.erase winner, TiesLatest winner other) := by
    intro winner member
    have ties : ∀ other : QueryResult ℚ,
        (authorityTies other.node.authority.value winner.node.authority.value &&
          validityRecencyCmp other.node.validity winner.node.validity == .eq) =
        decide (TiesLatest winner other) := by
      intro other
      rw [Bool.eq_iff_iff, Bool.and_eq_true, authorityTies_iff, beq_iff_eq, validityRecencyCmp_eq,
        compare_eq_iff_eq, decide_eq_true_iff]
      rfl
    simp only [ties]
    rw [decide_eq_decide, one_lt_length_filter_iff member (decide_eq_true (tiesLatest_self winner))]
    simp only [decide_eq_true_eq]
  unfold latestWinsOf
  split
  · rename_i only
    refine ⟨only, List.mem_singleton_self only, ?_, ?_⟩
    · intro other member
      rw [List.mem_singleton.mp member]
    · simp
  · cases isChosen : maxBy latestCmp sub with
    | none =>
      cases sub with
      | nil => exact absurd rfl nonempty
      | cons first rest => cases isChosen
    | some winner =>
      have member := mem_of_maxBy isChosen
      rw [funext fun a => funext (latestCmp_eq a)] at isChosen
      exact ⟨winner, member, rank_le_of_maxBy isChosen, by rw [← flag member]⟩

theorem lit_zero : (F32.lit 0 0 : ℚ) = 0 := Rat.zero_mkRat _

/-- The greatest of some numbers that are not negative. -/
theorem greatest_isGreatest (authorities : List ℚ) (nonempty : authorities ≠ [])
    (nonneg : ∀ authority ∈ authorities, 0 ≤ authority) :
    greatest authorities ∈ authorities ∧
      ∀ authority ∈ authorities, authority ≤ greatest authorities := by
  have largest : ∀ a b : ℚ, F32.max a b = max a b := fun a b => (max_def a b).symm
  have from_ : ∀ (rest : List ℚ) (start : ℚ),
      (rest.foldl F32.max start = start ∨ rest.foldl F32.max start ∈ rest) ∧
        start ≤ rest.foldl F32.max start ∧ ∀ a ∈ rest, a ≤ rest.foldl F32.max start := by
    intro rest
    induction rest with
    | nil => exact fun start => ⟨.inl rfl, le_rfl, nofun⟩
    | cons next rest inductionHypothesis =>
      intro start
      rw [List.foldl_cons, largest]
      obtain ⟨isThere, above, aboveRest⟩ := inductionHypothesis (max start next)
      refine ⟨?_, (le_max_left start next).trans above, ?_⟩
      · rcases isThere with same | later
        · rw [same]
          rcases max_choice start next with isStart | isNext
          · exact .inl isStart
          · rw [isNext]
            exact .inr List.mem_cons_self
        · exact .inr (List.mem_cons_of_mem _ later)
      · intro a member
        rcases List.mem_cons.mp member with rfl | later
        · exact (le_max_right start a).trans above
        · exact aboveRest a later
  obtain ⟨isThere, _, above⟩ := from_ authorities (F32.lit 0 0)
  refine ⟨?_, above⟩
  rcases isThere with isZero | member
  · obtain ⟨first, member⟩ := List.exists_mem_of_ne_nil authorities nonempty
    have least := above first member
    rw [isZero, lit_zero] at least
    rw [greatest, isZero, lit_zero, ← le_antisymm least (nonneg first member)]
    exact member
  · exact member

/-- A match that is less than 0.001 below the authority of each match of a list. -/
def NearTop (sub : List (QueryResult ℚ)) (result : QueryResult ℚ) : Prop :=
  ∀ other ∈ sub, other.node.authority.value - result.node.authority.value < 1 / 1000

instance (sub : List (QueryResult ℚ)) (result : QueryResult ℚ) : Decidable (NearTop sub result) :=
  List.decidableBAll _ _

theorem topOf_eq {sub : List (QueryResult ℚ)} (nonempty : sub ≠ [])
    (nonneg : ∀ result ∈ sub, 0 ≤ result.node.authority.value) :
    topOf sub = sub.filter fun result => decide (NearTop sub result) := by
  obtain ⟨isThere, above⟩ := greatest_isGreatest (sub.map (·.node.authority.value))
    (by simpa using nonempty) (by simpa using nonneg)
  obtain ⟨top, isTop, authority⟩ := List.mem_map.mp isThere
  refine List.filter_congr fun result member => ?_
  rw [Bool.eq_iff_iff, authorityTies_iff, decide_eq_true_iff, abs_sub_comm,
    abs_of_nonneg (sub_nonneg.mpr (above _ (List.mem_map_of_mem member)))]
  constructor
  · intro near other isOther
    exact (sub_le_sub_right (above _ (List.mem_map_of_mem isOther)) _).trans_lt near
  · intro near
    rw [← authority]
    exact near top isTop

/-- The match of the highest authority is near the top. -/
theorem highestAuthorityOf_eq {sub : List (QueryResult ℚ)} (nonempty : sub ≠ [])
    (nonneg : ∀ result ∈ sub, 0 ≤ result.node.authority.value) :
    ∃ winner ∈ sub, NearTop sub winner ∧ highestAuthorityOf sub =
      some ([winner], decide (∃ other ∈ sub.erase winner, NearTop sub other)) := by
  obtain ⟨isThere, above⟩ := greatest_isGreatest (sub.map (·.node.authority.value))
    (by simpa using nonempty) (by simpa using nonneg)
  obtain ⟨top, isTop, authority⟩ := List.mem_map.mp isThere
  have topNear : NearTop sub top := by
    intro other member
    rw [authority]
    exact (sub_nonpos.mpr (above _ (List.mem_map_of_mem member))).trans_lt (by norm_num)
  have flag : ∀ {winner}, winner ∈ topOf sub → decide (1 < (topOf sub).length) =
      decide (∃ other ∈ sub.erase winner, NearTop sub other) := by
    intro winner isWinner
    rw [topOf_eq nonempty nonneg] at isWinner ⊢
    obtain ⟨member, near⟩ := List.mem_filter.mp isWinner
    rw [decide_eq_decide, one_lt_length_filter_iff member near]
    simp only [decide_eq_true_eq]
  by_cases one : sub.length = 1
  · obtain ⟨only, rfl⟩ := List.length_eq_one_iff.mp one
    refine ⟨only, List.mem_singleton_self only, ?_, by simp [highestAuthorityOf]⟩
    intro other member
    rw [List.mem_singleton.mp member, sub_self]
    norm_num
  · have winners : topOf sub ≠ [] := by
      rw [topOf_eq nonempty nonneg]
      exact List.ne_nil_of_mem (List.mem_filter.mpr ⟨isTop, decide_eq_true topNear⟩)
    have isWinner : ∀ winner ∈ topOf sub, winner ∈ sub ∧ NearTop sub winner := by
      intro winner
      rw [topOf_eq nonempty nonneg, List.mem_filter, decide_eq_true_iff]
      exact id
    rw [highestAuthorityOf_several one]
    cases isTopOf : topOf sub with
    | nil => exact absurd isTopOf winners
    | cons winner others =>
      have first : winner ∈ topOf sub := by
        rw [isTopOf]
        exact List.mem_cons_self
      obtain ⟨member, near⟩ := isWinner winner first
      refine ⟨winner, member, near, ?_⟩
      rw [← flag first, isTopOf]
      cases others with
      | nil => rfl
      | cons second others => simp

end Factum
