/-
This file is about a sorted map from keys to lists that values are pushed to.

Such a map is an index: a value is listed under its key, and a range scan collects
the lists of all keys that satisfy some test. If a value is listed once and under
one key only, a scan lists it once when that key passes the test and otherwise
never.
-/

import Mathlib.Algebra.GroupWithZero.Nat
import Mathlib.Data.List.Nodup
import Std.Data.TreeMap.Lemmas

namespace Buckets

/-- Marking the places of a value in a list counts it. -/
theorem sum_indicator {κ : Type} [DecidableEq κ] (key : κ) (others : List κ) :
    (others.map fun other => if key = other then 1 else 0).sum = others.count key := by
  induction others with
  | nil => rfl
  | cons other later inductionHypothesis =>
    rw [List.map_cons, List.sum_cons, inductionHypothesis, List.count_cons, Nat.add_comm]
    by_cases same : key = other
    · rw [if_pos same, if_pos (by simpa using same.symm)]
    · rw [if_neg same, if_neg (by simpa using Ne.symm same)]

variable {κ α : Type} {cmp : κ → κ → Ordering} [Std.TransCmp cmp]

/-- The values listed under a key. -/
def bucket (map : Std.TreeMap κ (List α) cmp) (key : κ) : List α := (map[key]?).getD []

/-- List one more value under a key. -/
def push (map : Std.TreeMap κ (List α) cmp) (key : κ) (value : α) :
    Std.TreeMap κ (List α) cmp :=
  map.insert key (bucket map key ++ [value])

@[simp] theorem bucket_empty (key : κ) : bucket (∅ : Std.TreeMap κ (List α) cmp) key = [] := by
  rw [bucket, Std.TreeMap.getElem?_emptyc]
  rfl

variable [Std.LawfulEqCmp cmp]

theorem bucket_push [DecidableEq κ] (map : Std.TreeMap κ (List α) cmp) (key other : κ)
    (value : α) :
    bucket (push map key value) other =
      if other = key then bucket map key ++ [value] else bucket map other := by
  rw [bucket, push, Std.TreeMap.getElem?_insert]
  by_cases same : other = key
  · rw [if_pos (by rw [same, show cmp key key = .eq from Std.ReflCmp.compare_self]), if_pos same]
    rfl
  · have differs : ¬ cmp key other = .eq := fun equal =>
      same (Std.LawfulEqCmp.eq_of_compare equal).symm
    rw [if_neg differs, if_neg same]
    rfl

theorem bucket_of_mem_toList {map : Std.TreeMap κ (List α) cmp} {entry : κ × List α}
    (member : entry ∈ map.toList) : bucket map entry.1 = entry.2 := by
  obtain ⟨key, values⟩ := entry
  rw [bucket, Std.TreeMap.mem_toList_iff_getElem?_eq_some.mp member]
  rfl

/-- What a scan lists: the buckets of the keys that pass a test. -/
def scan (map : Std.TreeMap κ (List α) cmp) (test : κ → Bool) : List α :=
  (map.toList.filter fun entry => test entry.1).flatMap Prod.snd

/-- A value that is listed once, under its home key, is scanned once when the home key
passes the test, and a value without a home key is not scanned. -/
theorem count_scan [DecidableEq κ] [DecidableEq α] {map : Std.TreeMap κ (List α) cmp}
    {value : α} {home : Option κ}
    (listed : ∀ key, (bucket map key).count value = if home = some key then 1 else 0)
    (test : κ → Bool) :
    (scan map test).count value = if home.any test = true then 1 else 0 := by
  have each : ∀ entry ∈ map.toList.filter (fun entry => test entry.1),
      entry.2.count value = if home = some entry.1 then 1 else 0 := by
    intro entry member
    rw [← bucket_of_mem_toList (List.mem_filter.mp member).1, listed]
  rw [scan, List.count_flatMap]
  show ((map.toList.filter fun entry => test entry.1).map fun entry => entry.2.count value).sum = _
  rw [List.map_congr_left each]
  cases home with
  | none => simp
  | some key =>
    have keys : ((map.toList.filter fun entry => test entry.1).map fun entry =>
        if some key = some entry.1 then 1 else 0).sum =
        (((map.toList.filter fun entry => test entry.1).map Prod.fst).count key) := by
      rw [← sum_indicator, List.map_map]
      simp [Function.comp_def]
    have distinct : (map.toList.map Prod.fst).Nodup := by
      have pairwise := Std.TreeMap.distinct_keys_toList (t := map)
      rw [List.Nodup, List.pairwise_map]
      refine pairwise.imp ?_
      intro entry other differs same
      exact differs (same ▸ Std.ReflCmp.compare_self)
    have nodup : ((map.toList.filter fun entry => test entry.1).map Prod.fst).Nodup :=
      distinct.sublist (List.filter_sublist.map Prod.fst)
    rw [keys, Option.any_some]
    split_ifs with passes
    · refine List.count_eq_one_of_mem nodup (List.mem_map.mpr ?_)
      have nonempty := listed key
      rw [if_pos rfl, bucket] at nonempty
      cases found : map[key]? with
      | none =>
        rw [found] at nonempty
        cases nonempty
      | some values =>
        refine ⟨(key, values), List.mem_filter.mpr ⟨?_, passes⟩, rfl⟩
        exact Std.TreeMap.mem_toList_iff_getElem?_eq_some.mpr found
    · rw [List.count_eq_zero]
      intro member
      obtain ⟨entry, isEntry, rfl⟩ := List.mem_map.mp member
      exact passes (List.mem_filter.mp isEntry).2

end Buckets
