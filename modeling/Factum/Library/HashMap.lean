/-
This file is about hash maps whose order of iteration is not specified.

A hash map with a randomised hasher finds a key's value as any map does, but the
order in which it lists its entries depends on the seed. Here a map carries that
order with it, as a function that rearranges its keys, and nothing is known about
the function except that it loses and repeats no key. A result about every order
is then a result about every such function.
-/

import Mathlib.Data.List.AList
import Mathlib.Data.List.Induction

namespace Hash

/-! ### Lists under keys -/

section Lists

variable {κ α : Type} [DecidableEq κ]

/-- The list of a key, empty when the key is absent. -/
def listOf (entries : AList (fun _ : κ => List α)) (key : κ) : List α :=
  (entries.lookup key).getD []

/-- Append to the list of a key, creating it when the key is absent. -/
def pushTo (entries : AList (fun _ : κ => List α)) (key : κ) (value : α) :
    AList (fun _ : κ => List α) :=
  entries.insert key (listOf entries key ++ [value])

@[simp] theorem listOf_empty (key : κ) : listOf (∅ : AList (fun _ : κ => List α)) key = [] := rfl

theorem listOf_pushTo (entries : AList (fun _ : κ => List α)) (key other : κ) (value : α) :
    listOf (pushTo entries key value) other =
      if other = key then listOf entries key ++ [value] else listOf entries other := by
  unfold pushTo
  split_ifs with same
  · rw [same, listOf, AList.lookup_insert, Option.getD_some]
  · rw [listOf, AList.lookup_insert_ne same, listOf]

end Lists

/-! ### Arrangements -/

/-- An order of iteration: a rearrangement of every list of keys. -/
structure Order (κ : Type) where
  arrange : List κ → List κ
  perm : ∀ keys, (arrange keys).Perm keys

/-- The order that leaves the keys as they are. -/
def Order.asStored (κ : Type) : Order κ := ⟨id, fun _ => .refl _⟩

/-- A map together with the order in which it iterates. -/
structure Map (κ α : Type) where
  entries : AList (fun _ : κ => α)
  order : Order κ

namespace Map

variable {κ α : Type} [DecidableEq κ]

/-- The map without entries. -/
def empty (order : Order κ) : Map κ α := ⟨∅, order⟩

/-- The value of a key. -/
def get? (map : Map κ α) (key : κ) : Option α := map.entries.lookup key

/-- Insert or overwrite the value of a key. -/
def insert (map : Map κ α) (key : κ) (value : α) : Map κ α :=
  { map with entries := map.entries.insert key value }

/-- Remove a key. -/
def erase (map : Map κ α) (key : κ) : Map κ α := { map with entries := map.entries.erase key }

/-- The keys, in the order of iteration. -/
def keys (map : Map κ α) : List κ := map.order.arrange map.entries.keys

/-- The entries, in the order of iteration. -/
def toList (map : Map κ α) : List (κ × α) :=
  map.keys.filterMap fun key => (map.get? key).map (key, ·)

/-- The values, in the order of iteration. -/
def values (map : Map κ α) : List α := map.keys.filterMap map.get?

/-- The number of entries. -/
def size (map : Map κ α) : Nat := map.entries.keys.length

/-! ### Reading after writing -/

@[simp] theorem get?_empty (order : Order κ) (key : κ) :
    (empty order : Map κ α).get? key = none := rfl

theorem get?_insert (map : Map κ α) (key other : κ) (value : α) :
    (map.insert key value).get? other = if other = key then some value else map.get? other := by
  unfold get? insert
  split_ifs with same
  · rw [same]
    exact AList.lookup_insert _
  · exact AList.lookup_insert_ne same

@[simp] theorem get?_insert_self (map : Map κ α) (key : κ) (value : α) :
    (map.insert key value).get? key = some value := by
  rw [get?_insert, if_pos rfl]

theorem get?_insert_of_ne (map : Map κ α) {key other : κ} (value : α) (ne : other ≠ key) :
    (map.insert key value).get? other = map.get? other := by
  rw [get?_insert, if_neg ne]

/-! ### Iteration -/

omit [DecidableEq κ] in
theorem nodup_keys (map : Map κ α) : map.keys.Nodup :=
  (map.order.perm _).nodup_iff.mpr map.entries.keys_nodup

theorem mem_keys_iff (map : Map κ α) (key : κ) :
    key ∈ map.keys ↔ (map.get? key).isSome = true := by
  unfold keys get?
  rw [(map.order.perm _).mem_iff, AList.lookup_isSome, AList.mem_keys]

omit [DecidableEq κ] in
theorem length_keys (map : Map κ α) : map.keys.length = map.size :=
  (map.order.perm _).length_eq

theorem mem_toList_iff (map : Map κ α) (key : κ) (value : α) :
    (key, value) ∈ map.toList ↔ map.get? key = some value := by
  simp only [toList, List.mem_filterMap, mem_keys_iff, Option.map_eq_some_iff, Prod.mk.injEq]
  constructor
  · rintro ⟨_, _, _, found, rfl, rfl⟩
    exact found
  · intro found
    exact ⟨key, by rw [found]; rfl, value, found, rfl, rfl⟩

theorem map_fst_toList (map : Map κ α) : map.toList.map Prod.fst = map.keys := by
  have inside : ∀ keys : List κ, (∀ key ∈ keys, (map.get? key).isSome = true) →
      (keys.filterMap fun key => (map.get? key).map (key, ·)).map Prod.fst = keys := by
    intro keys
    induction keys with
    | nil => exact fun _ => rfl
    | cons key rest inductionHypothesis =>
      intro stored
      obtain ⟨value, found⟩ := Option.isSome_iff_exists.mp (stored key List.mem_cons_self)
      have later := inductionHypothesis fun other member =>
        stored other (List.mem_cons_of_mem _ member)
      simp only [List.filterMap_cons, found, Option.map_some, List.map_cons, later]
  exact inside map.keys fun key member => (map.mem_keys_iff key).mp member

theorem mem_values_iff (map : Map κ α) (value : α) :
    value ∈ map.values ↔ ∃ key, map.get? key = some value := by
  simp only [values, List.mem_filterMap, mem_keys_iff]
  constructor
  · rintro ⟨key, _, found⟩
    exact ⟨key, found⟩
  · rintro ⟨key, found⟩
    exact ⟨key, by rw [found]; rfl, found⟩

/-- The values are pairwise different when no value has two keys. -/
theorem nodup_values (map : Map κ α)
    (oneKey : ∀ key key' value, map.get? key = some value → map.get? key' = some value →
      key = key') : map.values.Nodup :=
  map.nodup_keys.filterMap fun key key' value found found' => oneKey key key' value found found'

/-! ### Other orders -/

/-- A map in another order of iteration. -/
def reorder (map : Map κ α) (order : Order κ) : Map κ α := { map with order }

/-- The list of a key, empty when the key is absent. -/
def getList (map : Map κ (List α)) (key : κ) : List α := listOf map.entries key

/-- Append to the list of a key, creating it when the key is absent. -/
def push (map : Map κ (List α)) (key : κ) (value : α) : Map κ (List α) :=
  { map with entries := pushTo map.entries key value }

/-- The entries pair each key with its list. -/
theorem toList_eq_map (map : Map κ (List α)) :
    map.toList = map.keys.map fun key => (key, map.getList key) := by
  have inside : ∀ keys : List κ, (∀ key ∈ keys, (map.get? key).isSome = true) →
      (keys.filterMap fun key => (map.get? key).map (key, ·)) =
        keys.map fun key => (key, map.getList key) := by
    intro keys
    induction keys with
    | nil => exact fun _ => rfl
    | cons key rest inductionHypothesis =>
      intro stored
      obtain ⟨value, found⟩ := Option.isSome_iff_exists.mp (stored key List.mem_cons_self)
      have here : map.getList key = value := by
        rw [get?] at found
        rw [getList, listOf, found, Option.getD_some]
      rw [List.filterMap_cons, found, Option.map_some, List.map_cons, here,
        inductionHypothesis fun other member => stored other (List.mem_cons_of_mem _ member)]
  exact inside map.keys fun key member => (map.mem_keys_iff key).mp member

theorem mem_keys_of_mem_getList (map : Map κ (List α)) {key : κ} {value : α}
    (member : value ∈ map.getList key) : key ∈ map.keys := by
  rw [mem_keys_iff, Option.isSome_iff_ne_none]
  intro absent
  rw [get?] at absent
  rw [getList, listOf, absent] at member
  exact absurd member (by simp)

@[simp] theorem getList_empty (order : Order κ) (key : κ) :
    (empty order : Map κ (List α)).getList key = [] := rfl

theorem getList_push (map : Map κ (List α)) (key other : κ) (value : α) :
    (map.push key value).getList other =
      if other = key then map.getList key ++ [value] else map.getList other :=
  listOf_pushTo map.entries key other value

theorem get?_push (map : Map κ (List α)) (key other : κ) (value : α) :
    (map.push key value).get? other =
      if other = key then some (map.getList key ++ [value]) else map.get? other :=
  get?_insert map key other (map.getList key ++ [value])

/-- Pushing values under their keys leaves under each key its values, in order. -/
theorem get?_foldl_push (order : Order κ) (keyOf : α → κ) (values : List α) (key : κ) :
    (values.foldl (fun map value => map.push (keyOf value) value) (empty order)).get? key =
      if values.filter (keyOf · = key) = [] then none
      else some (values.filter (keyOf · = key)) := by
  induction values using List.reverseRecOn with
  | nil => rfl
  | append_singleton values value inductionHypothesis =>
    rw [List.foldl_concat, get?_push, List.filter_append]
    by_cases same : keyOf value = key
    · have last : [value].filter (keyOf · = key) = [value] :=
        List.filter_cons_of_pos (decide_eq_true same)
      have before : (values.foldl (fun map value => map.push (keyOf value) value)
          (empty order)).getList key = values.filter (keyOf · = key) := by
        rw [getList, listOf]
        rw [get?] at inductionHypothesis
        rw [inductionHypothesis]
        split_ifs with none
        · exact none.symm
        · rfl
      rw [if_pos same.symm, same, before, last, if_neg (by simp)]
    · have last : [value].filter (keyOf · = key) = [] :=
        List.filter_cons_of_neg (by simpa using same)
      rw [if_neg (Ne.symm same), inductionHypothesis, last, List.append_nil]

end Map

end Hash
