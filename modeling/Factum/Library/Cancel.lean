/-
This file is about lists that can be told from what follows them.

If a word of accepted elements is followed by something that does not go on like it, or
a body without a closing element is followed by that element, then the whole determines
both parts.
-/

import Mathlib.Data.List.TakeWhile

namespace Cancel

variable {α : Type}

/-- A list that is empty or whose first element fails a test. -/
def Stops (accepts : α → Bool) (rest : List α) : Prop :=
  ∀ x tail, rest = x :: tail → accepts x = false

theorem takeWhile_of_stops {accepts : α → Bool} {rest : List α} (stops : Stops accepts rest) :
    rest.takeWhile accepts = [] := by
  cases rest with
  | nil => rfl
  | cons x tail => rw [List.takeWhile_cons_of_neg (by rw [stops x tail rfl]; decide)]

/-- A word is told from a rest that does not go on like it. -/
theorem word_cancel {accepts : α → Bool} {word word' rest rest' : List α}
    (accepted : ∀ x ∈ word, accepts x = true) (accepted' : ∀ x ∈ word', accepts x = true)
    (stops : Stops accepts rest) (stops' : Stops accepts rest')
    (same : word ++ rest = word' ++ rest') : word = word' ∧ rest = rest' := by
  have taken : ∀ {word rest : List α}, (∀ x ∈ word, accepts x = true) → Stops accepts rest →
      (word ++ rest).takeWhile accepts = word := by
    intro word rest accepted stops
    rw [List.takeWhile_append_of_pos accepted, takeWhile_of_stops stops, List.append_nil]
  have words : word = word' := by rw [← taken accepted stops, same, taken accepted' stops']
  subst words
  exact ⟨rfl, List.append_cancel_left same⟩

/-- A body is told from a rest by the element that closes it. -/
theorem closed_cancel [DecidableEq α] {close : α} {body body' rest rest' : List α}
    (inside : close ∉ body) (inside' : close ∉ body')
    (same : body ++ close :: rest = body' ++ close :: rest') : body = body' ∧ rest = rest' := by
  have accepted : ∀ {body : List α}, close ∉ body → ∀ x ∈ body, decide (x ≠ close) = true := by
    intro body inside x member
    exact decide_eq_true fun isClose => inside (isClose ▸ member)
  have stops : ∀ rest : List α, Stops (fun x => decide (x ≠ close)) (close :: rest) := by
    rintro rest x tail ⟨⟩
    exact decide_eq_false (not_not.mpr rfl)
  obtain ⟨bodies, rests⟩ :=
    word_cancel (accepted inside) (accepted inside') (stops rest) (stops rest') same
  exact ⟨bodies, (List.cons.inj rests).2⟩

end Cancel
