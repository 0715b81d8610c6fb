/-
This file compares the two ways in which a predicate is read.

On its own a predicate is read from the first form of a text, and what follows the form is left
alone. As the predicate of a node it is read from the same form, one level deeper, and what
follows it is read on: as the other fields of the node, up to its closing parenthesis, and as
more of the top level. So both read the same predicate exactly where the form is not as deep as
the parser goes and what follows it leaves the node as it is.
-/

import Factum.Skipped

namespace Factum
open Stateful Lexer

namespace Lexer

/-! ### The next token of a text -/

/-- The tokens of bytes that start with one are it and the tokens of the others. -/
theorem lexes_iff {src rest : List UInt8} {kind : TokenKind} {count : Nat}
    (nonempty : src ≠ []) (noBlanks : afterBlanks false src = src)
    (ran : nextToken ⟨src, 0, 1, 1⟩ = .ok ⟨kind, 0, 1, 1⟩ ⟨rest, count, 1, count + 1⟩)
    {kinds : List TokenKind} :
    Lexes src kinds ↔ ∃ kinds', kinds = kind :: kinds' ∧ Lexes rest kinds' := by
  constructor
  · intro lexes
    cases lexes with
    | done atEnd => exact absurd (noBlanks.symm.trans atEnd) nonempty
    | @token _ lexer after tok kinds' source notEnd isToken lexes =>
      have source : lexer.src = src := source.trans noBlanks
      have same : Lexer.src ⟨src, 0, 1, 1⟩ = lexer.src := source.symm
      obtain ⟨tok', after', isToken', sameKind, sameRest⟩ := nextToken_congr notEnd isToken same
      rw [ran] at isToken'
      cases isToken'
      rw [← sameRest] at lexes
      exact ⟨kinds', by rw [← sameKind], lexes⟩
  · rintro ⟨kinds', rfl, lexes⟩
    exact .token noBlanks.symm nonempty ran lexes

theorem lexes_space {rest : List UInt8} {kinds : List TokenKind} :
    Lexes (byte ' ' :: rest) kinds ↔ Lexes rest kinds :=
  ⟨fun lexes => lexes.congr rfl, fun lexes => lexes.congr rfl⟩

/-! ### The start of a node -/

/-- The text of a node before its predicate. -/
def nodeStart : String := "(node x :pred "

/-- The tokens of a node before its predicate. -/
def nodeStartKinds : List TokenKind := [.lParen, .symbol "node", .symbol "x", .keyword "pred"]

/-- A node's text before its predicate is read as four tokens, whatever follows. -/
theorem lexes_nodeStart {src : String} {kinds : List TokenKind} :
    Lexes (Lexer.new (nodeStart ++ src)).src kinds ↔
      ∃ rest, kinds = nodeStartKinds ++ rest ∧ Lexes (Lexer.new src).src rest := by
  have source : (Lexer.new (nodeStart ++ src)).src = byte '(' :: byte 'n' :: byte 'o' ::
      byte 'd' :: byte 'e' :: byte ' ' :: byte 'x' :: byte ' ' :: byte ':' :: byte 'p' ::
      byte 'r' :: byte 'e' :: byte 'd' :: byte ' ' :: (Lexer.new src).src := by
    simp only [Lexer.new, String.toList_append, Utf8.bytes_append]
    rfl
  have opens : ∀ (rest : List UInt8) kinds, Lexes (byte '(' :: rest) kinds ↔
      ∃ kinds', kinds = .lParen :: kinds' ∧ Lexes rest kinds' :=
    fun rest _ => lexes_iff (List.cons_ne_nil _ _) rfl rfl
  have node : ∀ (rest : List UInt8) kinds, Lexes (byte 'n' :: byte 'o' :: byte 'd' :: byte 'e' ::
      byte ' ' :: rest) kinds ↔ ∃ kinds', kinds = .symbol "node" :: kinds' ∧
        Lexes (byte ' ' :: rest) kinds' :=
    fun rest _ => lexes_iff (List.cons_ne_nil _ _) rfl rfl
  have id : ∀ (rest : List UInt8) kinds, Lexes (byte 'x' :: byte ' ' :: rest) kinds ↔
      ∃ kinds', kinds = .symbol "x" :: kinds' ∧ Lexes (byte ' ' :: rest) kinds' :=
    fun rest _ => lexes_iff (List.cons_ne_nil _ _) rfl rfl
  have pred : ∀ (rest : List UInt8) kinds, Lexes (byte ':' :: byte 'p' :: byte 'r' :: byte 'e' ::
      byte 'd' :: byte ' ' :: rest) kinds ↔ ∃ kinds', kinds = .keyword "pred" :: kinds' ∧
        Lexes (byte ' ' :: rest) kinds' :=
    fun rest _ => lexes_iff (List.cons_ne_nil _ _) rfl rfl
  rw [source]
  simp only [opens, node, id, pred, lexes_space, nodeStartKinds]
  constructor
  · rintro ⟨_, rfl, _, rfl, _, rfl, kinds', rfl, lexes⟩
    exact ⟨kinds', rfl, lexes⟩
  · rintro ⟨kinds', rfl, lexes⟩
    exact ⟨_, rfl, _, rfl, _, rfl, kinds', rfl, lexes⟩

/-! ### A closing parenthesis on the next line -/

/-- The tokens of some bytes, and those of them with a closing parenthesis on the next line: the
parenthesis is a token of its own, or it is in a last one that was left open. -/
def ClosedBy (kinds all : List TokenKind) : Prop :=
  all = kinds ++ [.rParen] ∨ ∃ front last last', HashForm last ∧ HashForm last' ∧
    kinds = front ++ [last] ∧ all = front ++ [last']

theorem ClosedBy.cons {kinds all : List TokenKind} (closed : ClosedBy kinds all)
    (kind : TokenKind) : ClosedBy (kind :: kinds) (kind :: all) := by
  rcases closed with rfl | ⟨front, last, last', isForm, isForm', rfl, rfl⟩
  · exact .inl rfl
  · exact .inr ⟨kind :: front, last, last', isForm, isForm', rfl, rfl⟩

theorem ClosedBy.length_le {kinds all : List TokenKind} (closed : ClosedBy kinds all) :
    kinds.length ≤ all.length := by
  rcases closed with rfl | ⟨front, last, last', -, -, rfl, rfl⟩ <;> simp

/-- A form is no less at the start of the tokens with the parenthesis. -/
theorem ClosedBy.isPrefix {kinds all body : List TokenKind} (closed : ClosedBy kinds all)
    (isPrefix : body ++ [.rParen] <+: kinds) : body ++ [.rParen] <+: all := by
  rcases closed with rfl | ⟨front, last, last', isForm, -, rfl, rfl⟩
  · exact isPrefix.trans (List.prefix_append _ _)
  · rcases List.prefix_concat_iff.mp isPrefix with whole | isPrefix
    · obtain ⟨-, isLast⟩ := List.append_inj' whole rfl
      cases isLast
      exact isForm.elim
    · exact isPrefix.trans (List.prefix_append _ _)

/-- What is at the start of the tokens with the parenthesis is there without it, unless it is all
of them. -/
theorem ClosedBy.of_isPrefix {kinds all form : List TokenKind} (closed : ClosedBy kinds all)
    (isPrefix : form <+: all) (notAll : form ≠ all) : form <+: kinds := by
  rcases closed with rfl | ⟨front, last, last', -, -, rfl, rfl⟩
  · exact (List.prefix_concat_iff.mp isPrefix).resolve_left notAll
  · exact ((List.prefix_concat_iff.mp isPrefix).resolve_left notAll).trans (List.prefix_append _ _)

theorem quiet_closing : Quiet [newline, byte ')'] := by
  constructor <;> decide

theorem lexes_closing : Lexes [newline, byte ')'] [.rParen] := by
  have closing : Lexes [byte ')'] [.rParen] :=
    (lexes_iff (List.cons_ne_nil _ _) rfl rfl).mpr ⟨[], rfl, (.done rfl : Lexes [] [])⟩
  exact closing.congr rfl

theorem Lexes.eq_nil {kinds : List TokenKind} (lexes : Lexes [] kinds) : kinds = [] := by
  cases lexes with
  | done => rfl
  | token source nonempty => exact absurd source nonempty

/-- Bytes that are read are read with a closing parenthesis on the next line. -/
theorem Lexes.closedBy {src : List UInt8} {kinds : List TokenKind} (lexes : Lexes src kinds) :
    ∃ all, Lexes (src ++ [newline, byte ')']) all ∧ ClosedBy kinds all := by
  induction lexes with
  | @done src atEnd =>
    exact ⟨[.rParen], lexes_closing.congr (by rw [afterBlanks_append, if_pos atEnd]; rfl), .inl rfl⟩
  | @token src lexer after tok kinds source nonempty isToken rest inductionHypothesis =>
    obtain ⟨c, tail, isSource⟩ := List.exists_cons_of_ne_nil nonempty
    have source' : lexer.src ++ [newline, byte ')'] =
        afterBlanks false (src ++ [newline, byte ')']) := by
      rw [afterBlanks_append, ← source, if_neg nonempty]
    have onto : Onto [newline, byte ')'] lexer
        { lexer with src := lexer.src ++ [newline, byte ')'] } := rfl
    have alike := alike_nextToken (ended_newline _) onto (by rw [isSource, List.head?_cons])
    have nonempty' : lexer.src ++ [newline, byte ')'] ≠ [] := by
      rw [isSource]
      exact List.cons_ne_nil _ _
    cases ran : nextToken { lexer with src := lexer.src ++ [newline, byte ')'] } with
    | ok tok' after' =>
      rw [isToken, ran] at alike
      rcases alike with ⟨sameKind, onto⟩ | ⟨_, isForm, isForm', _, empty, isRest⟩
      · obtain ⟨all, lexes, closed⟩ := inductionHypothesis
        rw [← onto] at lexes
        refine ⟨tok'.kind :: all, .token source' nonempty' ran lexes, ?_⟩
        rw [sameKind]
        exact closed.cons _
      · rw [empty] at rest
        have atEnd : after'.src = [] := isRest
        refine ⟨[tok'.kind], .token source' nonempty' ran (by rw [atEnd]; exact .done rfl), ?_⟩
        exact .inr ⟨[], tok.kind, tok'.kind, isForm, isForm', by rw [rest.eq_nil]; rfl, rfl⟩
    | error stop after' =>
      rw [isToken, ran] at alike
      exact alike.elim False.elim False.elim

/-- Bytes that are read with a closing parenthesis on the next line are read without it. -/
theorem Lexes.unclosed {bytes : List UInt8} {all : List TokenKind} (lexes : Lexes bytes all) :
    ∀ {src : List UInt8}, bytes = src ++ [newline, byte ')'] → ∃ kinds, Lexes src kinds := by
  induction lexes with
  | done atEnd =>
    rintro src rfl
    rw [afterBlanks_append] at atEnd
    split_ifs at atEnd with isEnd
    · exact ⟨[], .done isEnd⟩
    · exact absurd atEnd (List.append_ne_nil_of_right_ne_nil _ (List.cons_ne_nil _ _))
  | @token bytes lexer' after' tok' all source' nonempty' isToken' rest inductionHypothesis =>
    rintro src rfl
    rw [afterBlanks_append] at source'
    by_cases isEnd : afterBlanks false src = []
    · exact ⟨[], .done isEnd⟩
    · rw [if_neg isEnd] at source'
      obtain ⟨c, tail, isSource⟩ := List.exists_cons_of_ne_nil isEnd
      have onto : Onto [newline, byte ')'] ⟨afterBlanks false src, 0, 1, 1⟩ lexer' := source'
      have alike := alike_nextToken (ended_newline _) onto
        (show (afterBlanks false src).head? = some c by rw [isSource, List.head?_cons])
      cases ran : nextToken ⟨afterBlanks false src, 0, 1, 1⟩ with
      | ok tok after =>
        rw [ran, isToken'] at alike
        rcases alike with ⟨_, onto⟩ | ⟨_, _, _, _, empty, _⟩
        · obtain ⟨kinds, lexes⟩ := inductionHypothesis onto
          exact ⟨tok.kind :: kinds, .token rfl isEnd ran lexes⟩
        · exact ⟨[tok.kind], .token rfl isEnd ran (by rw [empty]; exact .done rfl)⟩
      | error stop after =>
        rw [ran, isToken'] at alike
        exact alike.elim (fun notQuiet => absurd quiet_closing notQuiet) False.elim

end Lexer

namespace Parser

variable {F : Type} {host : Host F}

/-! ### A predicate on its own -/

/-- What `parse_predicate` reads from its tokens. -/
def predicateForm (host : Host F) : ParserM Predicate := do
  discard (expect host .lParen)
  let pred ← parsePredicateBody host
  discard (expect host .rParen)
  return pred

/-- The predicate that a form is read as on its own. -/
def predicateOf (host : Host F) (form : List TokenKind) : Option Predicate :=
  match predicateForm host (ofKinds form) with
  | .ok pred after => if after.tokens.isEmpty then some pred else none
  | .error _ _ => none

/-- A parenthesis is read where it is next. -/
theorem parenthesis_ok {kind : TokenKind} (isParen : kind = .lParen ∨ kind = .rParen)
    {before after : Parser} : discard (expect host kind) before = .ok () after ↔
      before.kinds = kind :: after.kinds ∧
        after = { before with tokens := before.tokens.tail } := by
  refine readsOnly_expect host ?_ ?_ before after
  · rcases isParen with rfl | rfl <;> simp
  · rintro got same
    rcases isParen with rfl | rfl <;> cases got <;> first | rfl | cases same

/-- A predicate between its parentheses. -/
def predicateInside (host : Host F) : ParserM Predicate := do
  parsePredicateBodyInner host (← get).termFuel

/-- A predicate in its parentheses. -/
def predicateInForm (host : Host F) : ParserM Predicate := do
  discard (expect host .lParen)
  let pred ← predicateInside host
  discard (expect host .rParen)
  return pred

theorem parsePredicateForm_eq : parsePredicateForm host = withDepth (predicateInForm host) := by
  rw [parsePredicateForm, predicateInForm, predicateInside]
  simp only [bind_assoc]

/-- The two ways to read a predicate read the same from the same place. -/
theorem predicateForm_ok_iff {before after : Parser} {pred : Predicate} :
    predicateForm host before = .ok pred after ↔
      parsePredicateForm host before = .ok pred after := by
  obtain ⟨tokens, depth⟩ := before
  rw [parsePredicateForm_eq]
  constructor
  · intro ran
    obtain ⟨⟨⟩, opened, isOpen, ran⟩ := bind_eq_ok.mp ran
    obtain ⟨pred', between, body, ran⟩ := bind_eq_ok.mp ran
    obtain ⟨⟨⟩, closed, isClose, done⟩ := bind_eq_ok.mp ran
    cases done
    obtain ⟨isOpen, rfl⟩ := (parenthesis_ok (.inl rfl)).mp isOpen
    obtain ⟨below, ⟨tokens', depth'⟩, inside, rfl⟩ := withDepth_ok body
    obtain ⟨isClose, rfl⟩ := (parenthesis_ok (.inr rfl)).mp isClose
    have opens : discard (expect host .lParen) ⟨tokens, depth + 1⟩ =
        .ok () ⟨tokens.tail, depth + 1⟩ := (parenthesis_ok (.inl rfl)).mpr ⟨isOpen, rfl⟩
    have closes : discard (expect host .rParen) ⟨tokens', depth'⟩ =
        .ok () ⟨tokens'.tail, depth'⟩ := (parenthesis_ok (.inr rfl)).mpr ⟨isClose, rfl⟩
    have form : predicateInForm host ⟨tokens, depth + 1⟩ = .ok pred ⟨tokens'.tail, depth'⟩ := by
      rw [predicateInForm, bind_ok opens, predicateInside, bind_ok inside, bind_ok closes]
      rfl
    exact withDepth_run (show Parser.depth ⟨tokens, depth⟩ < maxParseDepth from below) form
  · intro ran
    obtain ⟨below, inner, form, rfl⟩ := withDepth_ok ran
    obtain ⟨⟨⟩, opened, isOpen, form⟩ := bind_eq_ok.mp form
    obtain ⟨pred', ⟨tokens', depth'⟩, inside, form⟩ := bind_eq_ok.mp form
    obtain ⟨⟨⟩, closed, isClose, done⟩ := bind_eq_ok.mp form
    cases done
    obtain ⟨isOpen, rfl⟩ := (parenthesis_ok (.inl rfl)).mp isOpen
    obtain ⟨isClose, rfl⟩ := (parenthesis_ok (.inr rfl)).mp isClose
    have opens : discard (expect host .lParen) ⟨tokens, depth⟩ = .ok () ⟨tokens.tail, depth⟩ :=
      (parenthesis_ok (.inl rfl)).mpr ⟨isOpen, rfl⟩
    have body : parsePredicateBody host ⟨tokens.tail, depth⟩ = .ok pred ⟨tokens', depth' - 1⟩ :=
      withDepth_run (show Parser.depth ⟨tokens.tail, depth⟩ < maxParseDepth from below) inside
    have closes : discard (expect host .rParen) ⟨tokens', depth' - 1⟩ =
        .ok () ⟨tokens'.tail, depth' - 1⟩ := (parenthesis_ok (.inr rfl)).mpr ⟨isClose, rfl⟩
    rw [predicateForm, bind_ok opens, bind_ok body, bind_ok closes]
    rfl

/-- A predicate is read from its form. -/
theorem carries_parsePredicateForm :
    Carries Whatever False (parsePredicateForm host) (fun _ => parsePredicateForm host)
      fun _ reading => (∃ body : Reading, body.Flat ∧
        reading.used = .lParen :: (body.used ++ [.rParen])) ∧ reading.Nests := by
  rw [parsePredicateForm_eq]
  refine .withDepth (carries_expect_bind host (.inl rfl) ?_)
  refine (carries_predicateInside host).bind fun pred reading inside => ?_
  refine carries_expect_bind host (.inr (.inl rfl)) (.pure ⟨⟨?_, ?_⟩, fun _ => .inr ?_⟩)
  · exact ⟨reading, inside.1, rfl⟩
  · exact inside.2.brackets (.inl ⟨rfl, rfl⟩)
  · exact List.cons_ne_nil _ _

theorem deepest_of_nests {reading : Reading} (nests : reading.Nests) :
    deepest 0 reading.used = reading.need := by
  have nested := nests 0 []
  rwa [List.append_nil, Nat.zero_add, deepest, Nat.max_zero] at nested

/-- A predicate that is read is the one of its form. -/
theorem predicateOf_of_parsePredicateForm {before after : Parser} {pred : Predicate}
    (ran : parsePredicateForm host before = .ok pred after) :
    ∃ form, before.kinds = form ++ after.kinds ∧ after.depth = before.depth ∧
      predicateOf host form = some pred ∧ deepest 0 form ≤ maxParseDepth - before.depth := by
  obtain ⟨reading, ⟨_, nests⟩, isRead, sameDepth, deep, again⟩ :=
    carries_parsePredicateForm before pred after trivial ran
  refine ⟨reading.used, isRead, sameDepth, ?_, (deepest_of_nests nests).trans_le deep⟩
  obtain ⟨last, ran', isLast, -⟩ := again reading.fuel [] (ofKinds reading.used) le_rfl False.elim
    (by rw [kinds_ofKinds, List.append_nil]) (deep.trans (Nat.sub_le_sub_left (Nat.zero_le _) _))
  rw [predicateOf, predicateForm_ok_iff.mpr ran']
  exact if_pos (by rw [List.isEmpty_iff]; exact List.map_eq_nil_iff.mp isLast)

/-- The form of a predicate is one form, and the predicate is read from it wherever its brackets
are not too deep. -/
theorem predicateOf_eq_some {form : List TokenKind} {pred : Predicate}
    (isRead : predicateOf host form = some pred) :
    (∃ body, form = .lParen :: (body ++ [.rParen])) ∧ deepest 0 form ≤ maxParseDepth ∧
      ∀ (other : List TokenKind) (before : Parser), before.kinds = form ++ other →
        deepest 0 form ≤ maxParseDepth - before.depth →
        ∃ after, parsePredicateForm host before = .ok pred after ∧ after.kinds = other ∧
          after.depth = before.depth := by
  unfold predicateOf at isRead
  cases ran : predicateForm host (ofKinds form) with
  | error stop after =>
    rw [ran] at isRead
    cases isRead
  | ok value after =>
    simp only [ran] at isRead
    split_ifs at isRead with isEnd
    cases isRead
    obtain ⟨reading, ⟨⟨body, flat, isUsed⟩, nests⟩, isForm, -, deep, again⟩ :=
      carries_parsePredicateForm (ofKinds form) pred after trivial (predicateForm_ok_iff.mp ran)
    have atEnd : after.kinds = [] := List.map_eq_nil_iff.mpr (List.isEmpty_iff.mp isEnd)
    rw [kinds_ofKinds, atEnd, List.append_nil] at isForm
    rw [isForm, deepest_of_nests nests]
    exact ⟨⟨body.used, isUsed⟩, deep, fun other before isBefore deep' =>
      again reading.fuel other before le_rfl False.elim isBefore deep'⟩

/-- What starts with a predicate starts with one form only. -/
theorem predicateOf_unique {form form' all : List TokenKind} {pred pred' : Predicate}
    (isRead : predicateOf host form = some pred) (isRead' : predicateOf host form' = some pred')
    (isPrefix : form <+: all) (isPrefix' : form' <+: all) : form = form' ∧ pred = pred' := by
  obtain ⟨rest, rfl⟩ := isPrefix
  obtain ⟨rest', same⟩ := isPrefix'
  obtain ⟨-, deep, again⟩ := predicateOf_eq_some isRead
  obtain ⟨-, deep', again'⟩ := predicateOf_eq_some isRead'
  obtain ⟨after, ran, isAfter, -⟩ := again rest (ofKinds (form ++ rest)) (kinds_ofKinds _) deep
  obtain ⟨after', ran', isAfter', -⟩ :=
    again' rest' (ofKinds (form ++ rest)) ((kinds_ofKinds _).trans same.symm) deep'
  rw [ran] at ran'
  cases ran'
  rw [← isAfter, isAfter'] at same
  exact ⟨(List.append_cancel_right same).symm, rfl⟩

/-- The form of a predicate is no less at the start of the tokens with the parenthesis. -/
theorem isPrefix_of_predicateOf {kinds all form : List TokenKind} {pred : Predicate}
    (closed : ClosedBy kinds all) (isRead : predicateOf host form = some pred)
    (isPrefix : form <+: kinds) : form <+: all := by
  obtain ⟨⟨body, rfl⟩, -⟩ := predicateOf_eq_some isRead
  rw [← List.cons_append] at isPrefix ⊢
  exact closed.isPrefix isPrefix

/-- A text is read as a predicate if its tokens start with the form of the predicate. -/
theorem parsePredicate_ok_iff {src : String} {tokens : List Token}
    (read : tokensOf src = .ok tokens) {pred : Predicate} :
    parsePredicate host src = .ok pred ↔
      ∃ form, form <+: kindsOf src ∧ predicateOf host form = some pred := by
  have areKinds := (lexes_of_tokensOf read).2
  have isRun : parsePredicate host src = answer (predicateForm host) ⟨tokens, 0⟩ := by
    rw [parsePredicate, read]
    rfl
  rw [isRun, answer_eq_ok]
  constructor
  · rintro ⟨after, ran⟩
    obtain ⟨form, isForm, -, isRead, -⟩ :=
      predicateOf_of_parsePredicateForm (predicateForm_ok_iff.mp ran)
    obtain ⟨⟨body, isBody⟩, -⟩ := predicateOf_eq_some isRead
    have isForm : kindsOf src ++ [.eof] = form ++ after.kinds := areKinds.symm.trans isForm
    rcases List.eq_nil_or_concat after.kinds with atEnd | ⟨rest, last, isLast⟩
    · rw [atEnd, List.append_nil, isBody, ← List.cons_append] at isForm
      cases (List.append_inj' isForm rfl).2
    · rw [isLast, List.concat_eq_append, ← List.append_assoc] at isForm
      exact ⟨form, ⟨rest, (List.append_inj' isForm rfl).1.symm⟩, isRead⟩
  · rintro ⟨form, ⟨rest, isForm⟩, isRead⟩
    obtain ⟨-, deep, again⟩ := predicateOf_eq_some isRead
    obtain ⟨after, ran, -⟩ := again (rest ++ [.eof]) ⟨tokens, 0⟩
      (areKinds.trans (by rw [← isForm, List.append_assoc])) deep
    exact ⟨after, predicateForm_ok_iff.mpr ran⟩

/-! ### A predicate in a node -/

/-- The fields of a node of which only the predicate is written. -/
def onlyPredicate {F : Type} [F32 F] (pred : Predicate) : NodeFields F :=
  { NodeFields.default with predicate := some pred }

variable [F32 F]

/-- Some tokens after the predicate of a node are read as fields that lead to a predicate and to
nothing else. -/
def ReadsFields (host : Host F) (first last : Predicate) (tokens : List TokenKind) : Prop :=
  ∃ after, parseFields host (tokens.length + 1) (onlyPredicate first)
      { ofKinds (tokens ++ [.rParen]) with depth := 1 } = .ok (onlyPredicate last) after ∧
    after.kinds = [.rParen]

/-- The tokens after the predicate of a node lead to a predicate: they are such fields up to the
closing parenthesis of the node, and no node comes after it. -/
def LeadsTo (host : Host F) (first last : Predicate) (tail : List TokenKind) : Prop :=
  ∃ front back, tail = front ++ .rParen :: back ∧ ReadsFields host first last front ∧
    Tops host (back ++ [.eof]) []

/-- The node of some fields, which has the name x. -/
def nodeOf (fields : NodeFields F) : ParserM (Node F) :=
  match fields.predicate with
  | none => failWith "MissingPredField: node missing :pred field"
  | some predicate =>
    return {
      id := ⟨"x"⟩
      predicate
      validity := fields.validity
      provenance := fields.provenance
      confidence := fields.confidence
      authority := fields.authority
      permissions := fields.permissions
      deps := fields.deps
      status := .active
      note := fields.note }

/-- The fields that make a default node are those of which only the predicate is written. -/
theorem nodeOf_new {fields : NodeFields F} {before after : Parser} {pred : Predicate}
    (ran : nodeOf fields before = .ok (.new "x" pred) after) :
    fields = onlyPredicate pred ∧ after = before := by
  obtain ⟨predicate, validity, provenance, confidence, authority, permissions, deps, note⟩ := fields
  cases predicate with
  | none => cases ran
  | some found =>
    cases ran
    exact ⟨rfl, rfl⟩

/-- The predicate of a node, its other fields and its closing parenthesis. -/
def restOfNode (host : Host F) (fuel : Nat) : ParserM (Node F) := do
  let pred ← parsePredicateForm host
  let fields ← parseFields host fuel (onlyPredicate pred)
  discard (expect host .rParen)
  nodeOf fields

theorem withDepth_shift {α : Type} {computation computation' : ParserM α} {before before' : Parser}
    (level : before.depth = 0) (level' : before'.depth = 0)
    (same : computation { before with depth := 1 } = computation' { before' with depth := 1 }) :
    withDepth computation before = withDepth computation' before' := by
  have shallow : ¬ maxParseDepth ≤ 0 := by decide
  rw [withDepth, withDepth, level, level', if_neg shallow, if_neg shallow, Nat.zero_add, same]

/-- The fields of a node start with its predicate. -/
theorem parseFields_pred (fuel : Nat) (tokens : List Token) :
    parseFields host (fuel + 1) .default ⟨⟨.keyword "pred", 0, 0, 0⟩ :: tokens, 1⟩ =
      (parsePredicateForm host >>= fun pred => parseFields host fuel (onlyPredicate pred))
        ⟨tokens, 1⟩ := by
  rw [parseFields]
  show (discard advance >>= fun _ => parseField host .default "pred" >>= fun fields =>
    parseFields host fuel fields) ⟨⟨.keyword "pred", 0, 0, 0⟩ :: tokens, 1⟩ = _
  rw [bind_ok (discard_ok (advance_run (by simp) tokens 1)), parseField, if_pos rfl, bind_assoc]
  rfl

/-- A node is read from its predicate on after its start. -/
theorem parseNode_nodeStart (kinds : List TokenKind) :
    parseNode host (ofKinds (nodeStartKinds ++ kinds)) =
      withDepth (restOfNode host ((ofKinds kinds).tokens.length + 1)) (ofKinds kinds) := by
  rw [parseNode]
  refine withDepth_shift rfl rfl ?_
  have opens : discard (expect host .lParen)
      { ofKinds (nodeStartKinds ++ kinds) with depth := 1 } =
        .ok () { ofKinds (nodeStartKinds.tail ++ kinds) with depth := 1 } :=
    (parenthesis_ok (.inl rfl)).mpr ⟨rfl, rfl⟩
  have named : expectSymbol "node" { ofKinds (nodeStartKinds.tail ++ kinds) with depth := 1 } =
        .ok () { ofKinds ([.symbol "x", .keyword "pred"] ++ kinds) with depth := 1 } :=
    (readsOnly_expectSymbol "node" _ _).mpr ⟨rfl, rfl⟩
  have id : advance { ofKinds ([.symbol "x", .keyword "pred"] ++ kinds) with depth := 1 } =
      .ok (.symbol "x") { ofKinds (.keyword "pred" :: kinds) with depth := 1 } := rfl
  rw [bind_ok opens, bind_ok named, bind_ok id]
  dsimp only
  rw [get_bind_run]
  refine (bind_congr_run (parseFields_pred _ _) _).trans ?_
  rw [bind_assoc]
  rfl

/-- A default node is read from a predicate and fields that lead to its own. -/
theorem fields_of_restOfNode {all : List TokenKind} {fuel : Nat} {pred : Predicate}
    {after : Parser} (ran : withDepth (restOfNode host fuel) (ofKinds all) =
      .ok (.new "x" pred) after) :
    ∃ form front first, all = form ++ (front ++ .rParen :: after.kinds) ∧
      predicateOf host form = some first ∧ deepest 0 form < maxParseDepth ∧
      ReadsFields host first pred front := by
  obtain ⟨-, inner, rest, rfl⟩ := withDepth_ok ran
  obtain ⟨first, between, form, rest⟩ := bind_eq_ok.mp rest
  obtain ⟨fields, last, read, rest⟩ := bind_eq_ok.mp rest
  obtain ⟨⟨⟩, closed, isClose, rest⟩ := bind_eq_ok.mp rest
  obtain ⟨rfl, rfl⟩ := nodeOf_new rest
  obtain ⟨isClose, rfl⟩ := (parenthesis_ok (.inr rfl)).mp isClose
  obtain ⟨own, isForm, level, isRead, deep⟩ := predicateOf_of_parsePredicateForm form
  obtain ⟨reading, ⟨-, enough⟩, isFields, -, need, again⟩ :=
    carries_parseFields host fuel (onlyPredicate first) between _ last
      (show Whatever between.kinds from trivial) read
  obtain ⟨end_, readAgain, isEnd, -⟩ := again (reading.used.length + 1) [.rParen]
    { ofKinds (reading.used ++ [.rParen]) with depth := 1 } enough (fun _ => by rw [isClose]; rfl)
    (kinds_ofKinds _) (by rw [level] at need; exact need)
  refine ⟨own, reading.used, first, ?_, isRead, ?_, end_, readAgain, isEnd⟩
  · have isAll : all = own ++ between.kinds := (kinds_ofKinds all).symm.trans isForm
    rw [isAll, isFields, isClose]
    rfl
  · have deep : deepest 0 own ≤ maxParseDepth - 1 := deep
    exact Nat.lt_of_le_pred (by decide) deep

/-- From a predicate and fields that lead to another, a default node is read. -/
theorem restOfNode_of_fields {form front back : List TokenKind} {first pred : Predicate}
    (isRead : predicateOf host form = some first) (deep : deepest 0 form < maxParseDepth)
    (reads : ReadsFields host first pred front) {fuel : Nat} (enough : front.length < fuel) :
    ∃ after, withDepth (restOfNode host fuel) (ofKinds (form ++ (front ++ .rParen :: back))) =
      .ok (.new "x" pred) after ∧ after.kinds = back := by
  obtain ⟨-, -, again⟩ := predicateOf_eq_some isRead
  obtain ⟨between, ran, isBetween, level⟩ := again (front ++ .rParen :: back)
    { ofKinds (form ++ (front ++ .rParen :: back)) with depth := 1 } (kinds_ofKinds _)
    (Nat.le_pred_of_lt deep)
  obtain ⟨end_, read, isEnd⟩ := reads
  obtain ⟨reading, ⟨-, takes⟩, isFields, -, need, again⟩ :=
    carries_parseFields host _ (onlyPredicate first) _ _ _
      (show Whatever (kinds _) from trivial) read
  have isFront : front = reading.used := by
    have same : front ++ [.rParen] = reading.used ++ end_.kinds :=
      (kinds_ofKinds _).symm.trans isFields
    rw [isEnd] at same
    exact List.append_cancel_right same
  rw [← isFront] at takes again
  obtain ⟨last, readAgain, isLast, -⟩ := again fuel (.rParen :: back) between
    (takes.trans enough) (fun _ => by rw [isEnd]; rfl) isBetween (by rw [level]; exact need)
  have isBack : kinds { last with tokens := last.tokens.tail } = back := by
    rw [kinds, List.map_tail]
    exact congrArg List.tail isLast
  have closes : discard (expect host .rParen) last =
      .ok () { last with tokens := last.tokens.tail } :=
    (parenthesis_ok (.inr rfl)).mpr ⟨by rw [isBack]; exact isLast, rfl⟩
  have rest :
      restOfNode host fuel { ofKinds (form ++ (front ++ .rParen :: back)) with depth := 1 } =
        .ok (.new "x" pred) { last with tokens := last.tokens.tail } := by
    rw [restOfNode, bind_ok ran, bind_ok readAgain, bind_ok closes]
    rfl
  exact ⟨_, withDepth_run (show 0 < maxParseDepth by decide) rest, isBack⟩

/-- The default node is read from the start of a node exactly if its predicate is led to. -/
theorem tops_nodeStart_iff {kinds : List TokenKind} {pred : Predicate} :
    Tops host (nodeStartKinds ++ (kinds ++ [.eof])) [Node.new "x" pred] ↔
      ∃ form first, form <+: kinds ∧ predicateOf host form = some first ∧
        deepest 0 form < maxParseDepth ∧ LeadsTo host first pred (kinds.drop form.length) := by
  constructor
  · intro tops
    generalize isStart : nodeStartKinds ++ (kinds ++ [.eof]) = all at tops
    cases tops with
    | stray _ notOpen => exact absurd (List.cons.inj isStart).1.symm notOpen
    | skipped notNode =>
      rw [← isStart] at notNode
      exact absurd rfl notNode
    | @node body back _ _ flat isNode isWritten tops =>
      obtain ⟨after, ran, isAfter, -⟩ := parseNode_of_writes flat isWritten (kinds_ofKinds _) rfl
      rw [← isStart, parseNode_nodeStart] at ran
      obtain ⟨form, front, first, isAll, isRead, deep, reads⟩ := fields_of_restOfNode ran
      rw [isAfter] at isAll
      rcases List.eq_nil_or_concat back with rfl | ⟨rest, last, rfl⟩
      · exact absurd (mem_eof_of_tops tops) List.not_mem_nil
      · have split : form ++ (front ++ .rParen :: rest.concat last) =
            (form ++ (front ++ .rParen :: rest)) ++ [last] := by simp
        obtain ⟨isKinds, isLast⟩ := List.append_inj' (isAll.trans split) rfl
        cases isLast
        rw [List.concat_eq_append] at tops
        refine ⟨form, first, ⟨_, isKinds.symm⟩, isRead, deep, front, rest, ?_, reads, tops⟩
        rw [isKinds, List.drop_left]
  · rintro ⟨form, first, ⟨rest, rfl⟩, isRead, deep, front, back, isRest, reads, tops⟩
    obtain rfl : rest = front ++ .rParen :: back := by rwa [List.drop_left] at isRest
    have isAll : form ++ (front ++ .rParen :: back) ++ [.eof] =
        form ++ (front ++ .rParen :: (back ++ [.eof])) := by simp
    have enough : front.length <
        (ofKinds (form ++ (front ++ .rParen :: (back ++ [.eof])))).tokens.length + 1 := by
      rw [ofKinds, List.length_map, List.length_append, List.length_append]
      omega
    obtain ⟨after, ran, isAfter⟩ := restOfNode_of_fields isRead deep reads enough
    rw [← parseNode_nodeStart] at ran
    obtain ⟨isWritten, -, body, flat, isNode⟩ := parseNode_ok rfl ran
    rw [kinds_ofKinds, isAfter] at isNode
    rw [kinds_ofKinds, isNode] at isWritten
    rw [isAll, isNode]
    exact .node flat (by rw [← isNode]; rfl) isWritten tops

/-! ### The two entry points -/

/-- A text as the predicate of a node. -/
def enclosed (src : String) : String := nodeStart ++ src ++ "\n)"

theorem new_closed (src : String) :
    (Lexer.new (src ++ "\n)")).src = (Lexer.new src).src ++ [newline, byte ')'] := by
  simp only [Lexer.new, String.toList_append, Utf8.bytes_append]
  rfl

theorem lexes_enclosed {src : String} {kinds : List TokenKind} :
    Lexes (Lexer.new (enclosed src)).src kinds ↔ ∃ all, kinds = nodeStartKinds ++ all ∧
      Lexes ((Lexer.new src).src ++ [newline, byte ')']) all := by
  rw [enclosed, String.append_assoc, lexes_nodeStart, new_closed]

theorem kindsOf_of_lexes {src : String} {kinds : List TokenKind}
    (lexes : Lexes (Lexer.new src).src kinds) (few : kinds.length < maxTokens) :
    kindsOf src = kinds := by
  obtain ⟨tokens, read, areKinds⟩ := tokensOf_of_lexes lexes few
  exact List.append_cancel_right ((lexes_of_tokensOf read).2.symm.trans areKinds)

theorem parse_ok_iff {src : String} {kinds : List TokenKind}
    (lexes : Lexes (Lexer.new src).src kinds) (few : kinds.length < maxTokens)
    {nodes : List (Node F)} :
    parse host src = .ok nodes ↔ Tops host (kinds ++ [.eof]) nodes := by
  constructor
  · intro parsed
    obtain ⟨-, -, tops⟩ := tops_of_parse parsed
    rwa [kindsOf_of_lexes lexes few] at tops
  · exact parse_of_tops lexes few

/-- A text that has tokens is read as a default node where they start with a predicate that is
not too deep, and that the tokens after it lead on from. -/
theorem parse_enclosed_iff {src : String} {all : List TokenKind}
    (lexes : Lexes ((Lexer.new src).src ++ [newline, byte ')']) all)
    (few : ∀ count, tokenCount (enclosed src) = some count → count < maxTokens)
    {pred : Predicate} :
    parse host (enclosed src) = .ok [.new "x" pred] ↔ ∃ form first, form <+: all ∧
      predicateOf host form = some first ∧ deepest 0 form < maxParseDepth ∧
        LeadsTo host first pred (all.drop form.length) := by
  have lexesNode := lexes_enclosed.mpr ⟨all, rfl, lexes⟩
  rw [parse_ok_iff lexesNode (few _ (tokenCount_of_lexes lexesNode)), List.append_assoc,
    tops_nodeStart_iff]

/-- What leads on from a predicate is not empty. -/
theorem LeadsTo.ne_nil {first last : Predicate} {tail : List TokenKind}
    (leads : LeadsTo host first last tail) : tail ≠ [] := by
  obtain ⟨front, back, rfl, -⟩ := leads
  exact List.append_ne_nil_of_right_ne_nil _ (List.cons_ne_nil _ _)

/-- A text without tokens is read in neither way. -/
theorem unread_of_not_lexes (host : Host F) {src : String}
    (unlexed : ¬ ∃ kinds, Lexes (Lexer.new src).src kinds) :
    (∀ pred, parsePredicate host src ≠ .ok pred) ∧
      (∀ nodes, parse host (enclosed src) ≠ .ok nodes) ∧ kindsOf src = [] := by
  cases read : tokensOf src with
  | ok tokens => exact absurd ⟨_, (lexes_of_tokensOf read).1⟩ unlexed
  | error stop =>
    refine ⟨fun pred parsed => ?_, fun nodes parsed => ?_, by rw [kindsOf, read]⟩
    · rw [parsePredicate, read] at parsed
      cases parsed
    · obtain ⟨tokens, read, -⟩ := tops_of_parse parsed
      obtain ⟨all, -, lexes⟩ := lexes_enclosed.mp (lexes_of_tokensOf read).1
      exact unlexed (lexes.unclosed rfl)

/-- A predicate is read alike on its own and in a node exactly if it nests less deep than the
parser goes and what follows it leaves the node as it is. -/
theorem parsePredicate_agrees_iff {src : String}
    (few : ∀ count, tokenCount (enclosed src) = some count → count < maxTokens) :
    (∀ pred, parsePredicate host src = .ok pred ↔
        parse host (enclosed src) = .ok [.new "x" pred]) ↔
      ∀ form pred, form <+: kindsOf src → predicateOf host form = some pred →
        deepest 0 form < maxParseDepth ∧
          LeadsTo host pred pred ((kindsOf (src ++ "\n)")).drop form.length) := by
  by_cases lexed : ∃ kinds, Lexes (Lexer.new src).src kinds
  · obtain ⟨kinds, lexes⟩ := lexed
    obtain ⟨all, lexesAll, closed⟩ := lexes.closedBy
    have inNode : ∀ pred, parse host (enclosed src) = .ok [.new "x" pred] ↔ _ :=
      fun pred => parse_enclosed_iff lexesAll few
    have fewAll : all.length < maxTokens := by
      have fewNode := few _ (tokenCount_of_lexes (lexes_enclosed.mpr ⟨all, rfl, lexesAll⟩))
      rw [List.length_append] at fewNode
      omega
    have fewKinds : kinds.length < maxTokens := closed.length_le.trans_lt fewAll
    obtain ⟨tokens, read, -⟩ := tokensOf_of_lexes lexes fewKinds
    rw [← new_closed] at lexesAll
    rw [kindsOf_of_lexes lexesAll fewAll]
    constructor
    · intro agrees form pred isPrefix isRead
      have own := (parsePredicate_ok_iff read).mpr ⟨form, isPrefix, isRead⟩
      rw [kindsOf_of_lexes lexes fewKinds] at isPrefix
      obtain ⟨form', first, isPrefix', isRead', deep, leads⟩ :=
        (inNode pred).mp ((agrees pred).mp own)
      obtain ⟨rfl, rfl⟩ := predicateOf_unique isRead isRead'
        (isPrefix_of_predicateOf closed isRead isPrefix) isPrefix'
      exact ⟨deep, leads⟩
    · intro leadsOn pred
      rw [parsePredicate_ok_iff read]
      rw [kindsOf_of_lexes lexes fewKinds] at leadsOn ⊢
      constructor
      · rintro ⟨form, isPrefix, isRead⟩
        obtain ⟨deep, leads⟩ := leadsOn form pred isPrefix isRead
        exact (inNode pred).mpr
          ⟨form, pred, isPrefix_of_predicateOf closed isRead isPrefix, isRead, deep, leads⟩
      · intro parsed
        obtain ⟨form, first, isPrefix, isRead, deep, leads⟩ := (inNode pred).mp parsed
        have notAll : form ≠ all := by
          rintro rfl
          exact leads.ne_nil List.drop_length
        have isPrefix' := closed.of_isPrefix isPrefix notAll
        have parsed' := (inNode first).mpr
          ⟨form, first, isPrefix, isRead, deep, (leadsOn form first isPrefix' isRead).2⟩
        have same : first = pred := by
          rw [parsed] at parsed'
          injection parsed' with sameNodes
          exact congrArg Node.predicate (List.cons.inj sameNodes).1.symm
        exact ⟨form, isPrefix', same ▸ isRead⟩
  · obtain ⟨unread, unparsed, noKinds⟩ := unread_of_not_lexes host lexed
    refine iff_of_true (fun pred => iff_of_false (unread pred) (unparsed _)) ?_
    intro form pred isPrefix isRead
    obtain ⟨⟨body, isBody⟩, -⟩ := predicateOf_eq_some isRead
    rw [noKinds, isBody, List.prefix_nil] at isPrefix
    cases isPrefix

end Parser

namespace Tenths

/-- A name alone is no predicate of another form. -/
theorem bare_agrees : Parser.parsePredicate host "(p)" = .ok ⟨.name "p", [], []⟩ ↔
    Parser.parse host (Parser.enclosed "(p)") = .ok [.new "x" ⟨.name "p", [], []⟩] := by
  have counted : tokenCount (Parser.enclosed "(p)") = some 8 := by decide +kernel
  have areKinds : Parser.kindsOf "(p)" = [.lParen, .symbol "p", .rParen] := by decide +kernel
  have areAll : Parser.kindsOf ("(p)" ++ "\n)") = [.lParen, .symbol "p", .rParen, .rParen] := by
    decide +kernel
  have isWhole : Parser.predicateOf host [.lParen, .symbol "p", .rParen] =
      some ⟨.name "p", [], []⟩ := by decide +kernel
  refine (Parser.parsePredicate_agrees_iff fun count isCount => ?_).mpr ?_ _
  · rw [counted] at isCount
    rw [← Option.some.inj isCount]
    decide
  · intro form pred isPrefix isRead
    rw [areKinds] at isPrefix
    obtain ⟨rfl, rfl⟩ := Parser.predicateOf_unique isRead isWhole isPrefix (List.prefix_refl _)
    rw [areAll]
    exact ⟨by decide, [], [], rfl, ⟨_, rfl, rfl⟩, .eof []⟩

/-- What follows a predicate is not read on its own, and is not a field in a node. -/
theorem trailing_disagrees :
    tokenCount (Parser.enclosed "(p) q") = some 9 ∧
    Parser.parsePredicate host "(p) q" = .ok ⟨.name "p", [], []⟩ ∧
    Parser.parse host (Parser.enclosed "(p) q") ≠ .ok [.new "x" ⟨.name "p", [], []⟩] := by
  refine ⟨by decide +kernel, by decide +kernel, by decide +kernel⟩

end Tenths

end Factum
