/-
This file is about scanning a sorted map for the keys with a common beginning.

A sorted key-value store finds all keys that start with a given word by seeking to
the first key that is not below the word and reading on while the keys start with
it. In the lexicographic order the keys with a common beginning stand together and
right there, so the scan lists exactly those keys, in order.
-/

import Mathlib.Data.List.Basic
import Std.Data.TreeMap.Lemmas

namespace PrefixScan

variable {α : Type} [Ord α] [Std.TransOrd α] [Std.LawfulEqOrd α] [BEq α] [LawfulBEq α]

omit [Std.TransOrd α] in
/-- A word that starts with another is not below it. -/
theorem not_lt_of_isPrefixOf {word key : List α} (starts : word.isPrefixOf key = true) :
    compare key word ≠ .lt := by
  rw [List.isPrefixOf_iff_prefix] at starts
  obtain ⟨rest, rfl⟩ := starts
  induction word with
  | nil =>
    cases rest with
    | nil => simp
    | cons a rest => simp
  | cons a word inductionHypothesis =>
    rw [List.cons_append, List.compare_cons_cons, Std.LawfulEqOrd.compare_eq_iff_eq.mpr rfl]
    exact inductionHypothesis

omit [Std.TransOrd α] in
/-- Past the first key that does not start with the word, no key does. -/
theorem not_isPrefixOf_of_lt {word : List α} : ∀ {key later : List α}, compare key word ≠ .lt →
    word.isPrefixOf key = false → compare key later = .lt → word.isPrefixOf later = false := by
  induction word with
  | nil =>
    intro key later _ misses _
    exact absurd misses (by simp)
  | cons a word inductionHypothesis =>
    intro key later notBelow misses below
    cases key with
    | nil => exact absurd List.compare_nil_cons notBelow
    | cons b key =>
      cases later with
      | nil => rfl
      | cons c later =>
        rw [List.compare_cons_cons] at notBelow below
        by_contra starts
        rw [Bool.not_eq_false, List.isPrefixOf_cons_cons, Bool.and_eq_true, beq_iff_eq] at starts
        obtain ⟨rfl, starts⟩ := starts
        cases order : compare b a with
        | lt => exact notBelow (by rw [order]; rfl)
        | gt =>
          rw [order] at below
          exact absurd below (by simp)
        | eq =>
          obtain rfl := Std.LawfulEqOrd.compare_eq_iff_eq.mp order
          rw [order, Ordering.eq_then] at notBelow below
          rw [List.isPrefixOf_cons_cons, beq_self_eq_true, Bool.true_and] at misses
          rw [inductionHypothesis notBelow misses below] at starts
          exact Bool.noConfusion starts

omit [Std.TransOrd α] in
/-- Among keys that are not below the word, reading on lists the keys that start with it. -/
theorem takeWhile_eq_filter (word : List α) {β : Type} : ∀ {entries : List (List α × β)},
    entries.Pairwise (fun a b => compare a.1 b.1 = .lt) →
    (∀ entry ∈ entries, compare entry.1 word ≠ .lt) →
    (entries.takeWhile fun entry => word.isPrefixOf entry.1) =
      entries.filter fun entry => word.isPrefixOf entry.1 := by
  intro entries
  induction entries with
  | nil => exact fun _ _ => rfl
  | cons entry rest inductionHypothesis =>
    intro sorted notBelow
    rw [List.pairwise_cons] at sorted
    have later := inductionHypothesis sorted.2 fun other member =>
      notBelow other (List.mem_cons_of_mem _ member)
    by_cases starts : word.isPrefixOf entry.1 = true
    · simp only [List.takeWhile_cons, List.filter_cons, starts, if_true, later]
    · have none : rest.filter (fun other => word.isPrefixOf other.1) = [] := by
        rw [List.filter_eq_nil_iff]
        intro other member
        rw [not_isPrefixOf_of_lt (notBelow entry List.mem_cons_self)
          (Bool.eq_false_iff.mpr starts) (sorted.1 other member)]
        exact Bool.false_ne_true
      simp only [List.takeWhile_cons, List.filter_cons, starts, Bool.false_eq_true, if_false,
        none]

/-- Seeking to a word and reading on while keys start with it lists the keys that do. -/
theorem seek_eq_filter (word : List α) {β : Type} {entries : List (List α × β)}
    (sorted : entries.Pairwise fun a b => compare a.1 b.1 = .lt) :
    ((entries.dropWhile fun entry => compare entry.1 word == .lt).takeWhile
        fun entry => word.isPrefixOf entry.1) =
      entries.filter fun entry => word.isPrefixOf entry.1 := by
  induction entries with
  | nil => rfl
  | cons entry rest inductionHypothesis =>
    by_cases below : compare entry.1 word = .lt
    · have misses : word.isPrefixOf entry.1 = false := by
        by_contra starts
        exact not_lt_of_isPrefixOf (by simpa using starts) below
      rw [List.dropWhile_cons, if_pos (by rw [below]; rfl), List.filter_cons,
        if_neg (by simp [misses])]
      exact inductionHypothesis (List.pairwise_cons.mp sorted).2
    · rw [List.dropWhile_cons, if_neg (by simpa using below)]
      refine takeWhile_eq_filter word sorted fun other member => ?_
      rcases List.mem_cons.mp member with rfl | later
      · exact below
      · intro laterBelow
        exact below (Std.TransCmp.lt_trans ((List.pairwise_cons.mp sorted).1 other later)
          laterBelow)

end PrefixScan
