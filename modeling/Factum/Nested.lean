/-
This file is about tokens whose brackets are properly nested.

The skipper counts an opening bracket of either kind, but takes only closing parentheses
off. So over tokens that are properly nested it comes out deeper by the number of opening
square brackets among them. What the printer writes for a term is properly nested.
-/

import Factum.Forms

namespace Factum

/-- Round and square brackets are properly nested, and the input does not end. -/
inductive Nested : List TokenKind → Prop
  | nil : Nested []
  | plain {kind : TokenKind} {rest : List TokenKind} : kind.IsPlain → kind ≠ .eof → Nested rest →
      Nested (kind :: rest)
  | parens {inner rest : List TokenKind} : Nested inner → Nested rest →
      Nested (.lParen :: (inner ++ .rParen :: rest))
  | brackets {inner rest : List TokenKind} : Nested inner → Nested rest →
      Nested (.lBracket :: (inner ++ .rBracket :: rest))

theorem Nested.append {front back : List TokenKind} (nested : Nested front)
    (nested' : Nested back) : Nested (front ++ back) := by
  induction nested with
  | nil => exact nested'
  | plain isPlain notEof _ inductionHypothesis => exact .plain isPlain notEof inductionHypothesis
  | @parens inner rest nestedInner _ _ inductionHypothesis =>
    rw [List.cons_append, List.append_assoc]
    exact .parens nestedInner inductionHypothesis
  | @brackets inner rest nestedInner _ _ inductionHypothesis =>
    rw [List.cons_append, List.append_assoc]
    exact .brackets nestedInner inductionHypothesis

theorem nested_singleton {kind : TokenKind} (isPlain : kind.IsPlain) (notEof : kind ≠ .eof) :
    Nested [kind] := .plain isPlain notEof .nil

/-- Round brackets are properly nested, whatever is between them, and the input does not end. -/
inductive Leveled : List TokenKind → Prop
  | nil : Leveled []
  | other {kind : TokenKind} {rest : List TokenKind} : kind.IsLevel → kind ≠ .eof → Leveled rest →
      Leveled (kind :: rest)
  | parens {inner rest : List TokenKind} : Leveled inner → Leveled rest →
      Leveled (.lParen :: (inner ++ .rParen :: rest))

theorem Leveled.append {front back : List TokenKind} (leveled : Leveled front)
    (leveled' : Leveled back) : Leveled (front ++ back) := by
  induction leveled with
  | nil => exact leveled'
  | other isLevel notEof _ inductionHypothesis => exact .other isLevel notEof inductionHypothesis
  | @parens inner rest leveledInner _ _ inductionHypothesis =>
    rw [List.cons_append, List.append_assoc]
    exact .parens leveledInner inductionHypothesis

theorem Nested.leveled {kinds : List TokenKind} (nested : Nested kinds) : Leveled kinds := by
  induction nested with
  | nil => exact .nil
  | plain isPlain notEof _ inductionHypothesis =>
    exact .other isPlain.isLevel notEof inductionHypothesis
  | parens _ _ inside inductionHypothesis => exact .parens inside inductionHypothesis
  | brackets _ _ inside inductionHypothesis =>
    exact .other (by simp [TokenKind.IsLevel]) (by simp)
      (inside.append (.other (by simp [TokenKind.IsLevel]) (by simp) inductionHypothesis))

/-- Tokens whose round brackets are nested are passed over at any level. -/
theorem afterClosing_leveled {kinds : List TokenKind} (leveled : Leveled kinds) :
    ∀ (level : Nat) (rest : List TokenKind),
      afterClosing level (kinds ++ rest) = afterClosing level rest := by
  induction leveled with
  | nil => exact fun _ _ => rfl
  | other isLevel _ _ inductionHypothesis =>
    intro level rest
    rw [List.cons_append, afterClosing_of_isLevel isLevel, inductionHypothesis]
  | @parens inner kinds _ _ inside inductionHypothesis =>
    intro level rest
    rw [List.cons_append, List.append_assoc, afterClosing_lParen, inside, List.cons_append,
      afterClosing_rParen, inductionHypothesis]

namespace Parser

theorem afterSkip_of_isLevel {kind : TokenKind} (isLevel : kind.IsLevel) (notEof : kind ≠ .eof)
    (depth : Nat) (rest : List TokenKind) :
    afterSkip (depth + 1) (kind :: rest) = afterSkip (depth + [kind].count .lBracket + 1) rest := by
  cases kind with
  | lParen => exact absurd rfl isLevel.1
  | rParen => exact absurd rfl isLevel.2
  | eof => exact absurd rfl notEof
  | _ => rfl

/-- Over tokens whose round brackets are nested the skipper gets deeper by the opening square
brackets. -/
theorem afterSkip_leveled {kinds : List TokenKind} (leveled : Leveled kinds) :
    ∀ (depth : Nat) (rest : List TokenKind), afterSkip (depth + 1) (kinds ++ rest) =
      afterSkip (depth + kinds.count .lBracket + 1) rest := by
  induction leveled with
  | nil => exact fun _ _ => rfl
  | @other kind kinds isLevel notEof _ inductionHypothesis =>
    intro depth rest
    rw [List.cons_append, afterSkip_of_isLevel isLevel notEof, inductionHypothesis,
      ← List.singleton_append (l := kinds), List.count_append, Nat.add_assoc depth]
  | @parens inner kinds _ _ inside inductionHypothesis =>
    intro depth rest
    have opened : afterSkip (depth + 1) (.lParen :: (inner ++ .rParen :: kinds) ++ rest) =
        afterSkip (depth + 1 + 1) (inner ++ (.rParen :: (kinds ++ rest))) := by
      rw [List.cons_append, List.append_assoc]
      rfl
    rw [opened, inside]
    show afterSkip (depth + 1 + inner.count .lBracket) (kinds ++ rest) = _
    rw [Nat.add_right_comm, inductionHypothesis, List.count_cons_of_ne (by simp), List.count_append,
      List.count_cons_of_ne (by simp), Nat.add_assoc depth]

/-- Where nested tokens close a form that is skipped, the skipper stops behind it or at the end
of the input. -/
theorem afterSkip_form {kinds : List TokenKind} (nested : Nested kinds) :
    afterSkip 1 (kinds ++ [.rParen, .eof]) = [.eof] := by
  rw [← Nat.zero_add 1, afterSkip_leveled nested.leveled]
  cases 0 + kinds.count .lBracket <;> rfl

end Parser

/-! ### Printed terms -/

section Printed

variable {F : Type} (host : Host F)

theorem nested_entity (entity : EntityId) : Nested entity.readTokens := by
  unfold EntityId.readTokens
  dsimp only
  split_ifs
  · exact nested_singleton (by simp [TokenKind.IsPlain]) (by simp)
  · exact .plain (by simp [TokenKind.IsPlain]) (by simp)
      (nested_singleton (by simp [TokenKind.IsPlain]) (by simp))

mutual

theorem nested_term : ∀ term : Term, Nested (term.readTokens host)
  | .var _ => nested_singleton (by simp [TokenKind.IsPlain]) (by simp)
  | .ent entity => nested_entity entity
  | .lit literal =>
    nested_singleton (by cases literal <;> simp [TokenKind.IsPlain, Literal.token])
      (by cases literal <;> simp [Literal.token])
  | .compound pred => nested_predicate pred
  | .list items => .brackets (nested_all items) .nil

theorem nested_predicate : ∀ pred : Predicate, Nested (pred.readTokens host)
  | ⟨_, args, named⟩ =>
    .parens (.plain (by simp [TokenKind.IsPlain]) (by simp)
      ((nested_all args).append (nested_named named))) .nil

theorem nested_all : ∀ items : List Term, Nested (Term.readTokensAll host items)
  | [] => .nil
  | term :: rest => (nested_term term).append (nested_all rest)

theorem nested_named : ∀ named : List (String × Term), Nested (Term.readTokensNamed host named)
  | [] => .nil
  | (_, term) :: rest =>
    .plain (by simp [TokenKind.IsPlain]) (by simp) ((nested_term term).append (nested_named rest))

end

end Printed

end Factum
