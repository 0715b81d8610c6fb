/-
This file says what the parser spends on a predicate.

A term is read between two places of the same level of parentheses, so a predicate is read
up to the parenthesis that closes its own. On the way the parser spends one word for each
head and each entity, and no duration that is not read as one. So a text that has more
words or other durations than a predicate is not read as this predicate.
-/

import Factum.Misread

namespace Factum

open Stateful Lexer

/-! ### Levels and words -/

/-- The kinds of the tokens after the parenthesis that closes the outermost of the open ones,
of which there are `level` more. -/
def afterClosing : Nat → List TokenKind → List TokenKind
  | _, [] => []
  | level, .lParen :: rest => afterClosing (level + 1) rest
  | 0, .rParen :: rest => rest
  | level + 1, .rParen :: rest => afterClosing level rest
  | level, _ :: rest => afterClosing level rest

/-- A token that is no parenthesis. -/
def TokenKind.IsLevel (kind : TokenKind) : Prop := kind ≠ .lParen ∧ kind ≠ .rParen

theorem afterClosing_lParen (level : Nat) (rest : List TokenKind) :
    afterClosing level (.lParen :: rest) = afterClosing (level + 1) rest := by
  rw [afterClosing]

theorem afterClosing_rParen (level : Nat) (rest : List TokenKind) :
    afterClosing (level + 1) (.rParen :: rest) = afterClosing level rest := by
  rw [afterClosing]

theorem afterClosing_of_isLevel {kind : TokenKind} (isLevel : kind.IsLevel) (level : Nat)
    (rest : List TokenKind) : afterClosing level (kind :: rest) = afterClosing level rest := by
  cases kind with
  | lParen => exact absurd rfl isLevel.1
  | rParen => exact absurd rfl isLevel.2
  | _ => cases level <;> rfl

/-- What a token counts: words count one, and so do durations that are not read. -/
def TokenKind.weight : TokenKind → Nat
  | .symbol _ => 1
  | .entity _ => 1
  | .duration text =>
    match parseDuration text with
    | .ok _ => 0
    | .error _ => 1
  | _ => 0

/-- What tokens count together. -/
def weigh (kinds : List TokenKind) : Nat := (kinds.map TokenKind.weight).sum

@[simp] theorem weigh_nil : weigh [] = 0 := rfl

@[simp] theorem weigh_cons (kind : TokenKind) (rest : List TokenKind) :
    weigh (kind :: rest) = kind.weight + weigh rest := by
  rw [weigh, List.map_cons, List.sum_cons, weigh]

@[simp] theorem weigh_append (first second : List TokenKind) :
    weigh (first ++ second) = weigh first + weigh second := by
  rw [weigh, List.map_append, List.sum_append, weigh, weigh]

mutual

/-- The words of a term: its heads and its entities. -/
def Term.words : Term → Nat
  | .var _ => 0
  | .ent _ => 1
  | .lit _ => 0
  | .compound pred => pred.words
  | .list items => Term.wordsAll items

/-- The words of a predicate: its own head and those of its arguments. -/
def Predicate.words : Predicate → Nat
  | ⟨_, args, named⟩ => 1 + Term.wordsAll args + Term.wordsNamed named

/-- The words of terms. -/
def Term.wordsAll : List Term → Nat
  | [] => 0
  | term :: rest => term.words + Term.wordsAll rest

/-- The words of named arguments. -/
def Term.wordsNamed : List (String × Term) → Nat
  | [] => 0
  | (_, term) :: rest => term.words + Term.wordsNamed rest

end

theorem wordsAll_concat (items : List Term) (term : Term) :
    Term.wordsAll (items ++ [term]) = Term.wordsAll items + term.words := by
  induction items with
  | nil => simp [Term.wordsAll]
  | cons first rest inductionHypothesis =>
    rw [List.cons_append, Term.wordsAll, Term.wordsAll, inductionHypothesis, Nat.add_assoc]

theorem wordsNamed_concat (named : List (String × Term)) (key : String) (term : Term) :
    Term.wordsNamed (named ++ [(key, term)]) = Term.wordsNamed named + term.words := by
  induction named with
  | nil => simp [Term.wordsNamed]
  | cons first rest inductionHypothesis =>
    rw [List.cons_append, Term.wordsNamed, Term.wordsNamed, inductionHypothesis, Nat.add_assoc]

namespace Parser

/-- The kinds of the tokens that are left. -/
def kinds (parser : Parser) : List TokenKind := parser.tokens.map (·.kind)

/-! ### Spending tokens -/

/-- Before tokens of a kind a computation that succeeds goes from one level to another, and
its value is in a relation to what it spends. -/
def Spends {α : Type} (starts : List TokenKind → Prop) (computation : ParserM α)
    (level level' : Nat) (post : α → Nat → Prop) : Prop :=
  ∀ before value after, starts before.kinds → computation before = .ok value after →
    afterClosing level before.kinds = afterClosing level' after.kinds ∧
      ∃ spent, weigh before.kinds = spent + weigh after.kinds ∧ post value spent

/-- Any tokens. -/
def Whatever (_ : List TokenKind) : Prop := True

/-- A token of this kind is next. -/
def Next (kind : TokenKind) (kinds : List TokenKind) : Prop := ∃ rest, kinds = kind :: rest

section Rules

variable {α β : Type} {starts : List TokenKind → Prop} {level level' level'' : Nat}
  {post : α → Nat → Prop}

theorem Spends.any {computation : ParserM α}
    (spends : Spends Whatever computation level level' post) :
    Spends starts computation level level' post :=
  fun before value after _ succeeds => spends before value after trivial succeeds

theorem Spends.pure {value : α} (holds : post value 0) :
    Spends starts (Pure.pure value) level level post := by
  intro before value' after _ succeeds
  cases succeeds
  exact ⟨rfl, 0, (Nat.zero_add _).symm, holds⟩

theorem spends_throw (stop : Stop ParseError) :
    Spends starts (throw stop : ParserM α) level level' post := by
  intro _ _ _ _ succeeds
  cases succeeds

theorem spends_failWith (message : String) :
    Spends starts (failWith message) level level' post := by
  intro _ _ _ _ succeeds
  cases succeeds

theorem Spends.ite {condition : Prop} [Decidable condition] {yes no : ParserM α}
    (ifYes : Spends starts yes level level' post) (ifNo : Spends starts no level level' post) :
    Spends starts (if condition then yes else no) level level' post := by
  split
  · exact ifYes
  · exact ifNo

theorem Spends.bind {first : ParserM α} {next : α → ParserM β} {post' : β → Nat → Prop}
    (here : Spends starts first level level' post)
    (rest : ∀ value spent, post value spent → Spends Whatever (next value) level' level''
      fun result spent' => post' result (spent + spent')) :
    Spends starts (first >>= next) level level'' post' := by
  intro before result after isStart succeeds
  obtain ⟨value, between, ran, ranRest⟩ := bind_eq_ok.mp succeeds
  obtain ⟨toBetween, spent, weighs, holds⟩ := here before value between isStart ran
  obtain ⟨toAfter, spent', weighs', holds'⟩ :=
    rest value spent holds between result after trivial ranRest
  exact ⟨toBetween.trans toAfter, spent + spent', by rw [weighs, weighs', Nat.add_assoc], holds'⟩

theorem spends_orError_bind {read : Except String α} {next : α → ParserM β}
    {post' : β → Nat → Prop}
    (rest : ∀ value, read = .ok value → Spends starts (next value) level level' post') :
    Spends starts (orError read >>= next) level level' post' := by
  cases read with
  | ok value => exact rest value rfl
  | error message =>
    intro _ _ _ _ succeeds
    cases succeeds

/-- The kind of the next token decides what is done. -/
theorem spends_peek_bind {next : TokenKind → ParserM α}
    (rest : ∀ kind, Spends (Next kind) (next kind) level level' post) :
    Spends starts (peekKind >>= next) level level' post := by
  intro before value after _ succeeds
  obtain ⟨tokens, depth⟩ := before
  cases tokens with
  | nil => cases succeeds
  | cons tok tokens =>
    exact rest tok.kind ⟨tok :: tokens, depth⟩ value after ⟨tokens.map (·.kind), rfl⟩ succeeds

/-- The next token is read. -/
theorem spends_advance_bind {next : TokenKind → ParserM α} {kind : TokenKind}
    (notEof : kind ≠ .eof)
    (levels : ∀ rest, afterClosing level (kind :: rest) = afterClosing level' rest)
    (rest : Spends Whatever (next kind) level' level''
      fun result spent => post result (kind.weight + spent)) :
    Spends (Next kind) (advance >>= next) level level'' post := by
  intro before value after isNext succeeds
  obtain ⟨tokens, depth⟩ := before
  obtain ⟨kinds', isKinds⟩ := isNext
  obtain ⟨tok, others, rfl, rfl, areOthers⟩ := List.map_eq_cons_iff.mp isKinds
  rw [bind_ok (advance_run notEof others depth)] at succeeds
  obtain ⟨toAfter, spent, weighs, holds⟩ := rest ⟨others, depth⟩ value after trivial succeeds
  have isKinds : kinds ⟨tok :: others, depth⟩ = tok.kind :: kinds ⟨others, depth⟩ := rfl
  rw [isKinds, levels, weigh_cons, weighs]
  exact ⟨toAfter, _, (Nat.add_assoc _ _ _).symm, holds⟩

theorem spends_discard_bind {next : Unit → ParserM α} {kind : TokenKind}
    (notEof : kind ≠ .eof)
    (levels : ∀ rest, afterClosing level (kind :: rest) = afterClosing level' rest)
    (rest : Spends Whatever (next ()) level' level''
      fun result spent => post result (kind.weight + spent)) :
    Spends (Next kind) (discard advance >>= next) level level'' post := by
  rw [discard_bind]
  exact spends_advance_bind notEof levels rest

theorem Spends.withDepth {computation : ParserM α}
    (spends : Spends starts computation level level' post) :
    Spends starts (withDepth computation) level level' post := by
  intro before value after isStart succeeds
  obtain ⟨_, inner, ran, rfl⟩ := withDepth_ok succeeds
  exact spends { before with depth := before.depth + 1 } value inner isStart ran

/-- A token of a kind whose text does not matter is expected. -/
theorem spends_expect_bind {F : Type} (host : Host F) {next : Unit → ParserM α}
    {kind : TokenKind} (notEof : kind ≠ .eof)
    (only : ∀ got : TokenKind, got.ctorIdx = kind.ctorIdx → got = kind)
    (levels : ∀ rest, afterClosing level (kind :: rest) = afterClosing level' rest)
    (rest : Spends Whatever (next ()) level' level''
      fun result spent => post result (kind.weight + spent)) :
    Spends starts (discard (expect host kind) >>= next) level level'' post := by
  rw [discard_bind]
  unfold expect
  rw [bind_assoc]
  refine spends_peek_bind fun got => ?_
  by_cases same : got.ctorIdx = kind.ctorIdx
  · rw [if_pos same, only got same]
    exact spends_advance_bind notEof levels rest
  · rw [if_neg same]
    split_ifs
    all_goals
      intro _ _ _ _ succeeds
      cases succeeds

/-- A symbol is read, where nothing else will do. -/
theorem spends_symbol_bind {next : TokenKind → ParserM α}
    (only : ∀ kind state value after, next kind state = .ok value after →
      ∃ text, kind = .symbol text)
    (rest : ∀ text, Spends Whatever (next (.symbol text)) level level'
      fun result spent => post result (1 + spent)) :
    Spends starts (advance >>= next) level level' post := by
  intro before value after _ succeeds
  obtain ⟨kind, between, ran, ranRest⟩ := bind_eq_ok.mp succeeds
  obtain ⟨text, rfl⟩ := only kind between value after ranRest
  have isNext : Next (.symbol text) before.kinds := by
    obtain ⟨tokens, depth⟩ := before
    cases tokens with
    | nil => cases ran
    | cons tok tokens =>
      have isKind : tok.kind = .symbol text := by
        unfold advance at ran
        dsimp only at ran
        split_ifs at ran <;> (injection ran)
      exact ⟨tokens.map (·.kind), by rw [kinds, List.map_cons, isKind]⟩
  refine spends_advance_bind (by simp) (fun rest => ?_) (rest text) before value after isNext
    succeeds
  exact afterClosing_of_isLevel (by simp [TokenKind.IsLevel]) level rest

end Rules

/-! ### Terms and predicates -/

section Methods

variable {F : Type} (host : Host F)

/-- A token that is a term of its own. -/
theorem spends_leaf {kind : TokenKind} (isLevel : kind.IsLevel) (notEof : kind ≠ .eof)
    {term : Term} (weighs : kind.weight = term.words) {level : Nat} :
    Spends (Next kind) (discard advance >>= fun _ => pure term) level level
      fun term spent => spent = term.words :=
  spends_discard_bind notEof (afterClosing_of_isLevel isLevel level) (.pure weighs)

/-- A token that is a term of its own if the library reads it. -/
theorem spends_literal {kind : TokenKind} (isLevel : kind.IsLevel) (notEof : kind ≠ .eof)
    {α : Type} {read : Except String α} (term : α → Term)
    (weighs : ∀ value, read = .ok value → kind.weight = (term value).words) {level : Nat} :
    Spends (Next kind) (discard advance >>= fun _ => orError read >>= fun value =>
        pure (term value)) level level
      fun term spent => spent = term.words :=
  spends_discard_bind notEof (afterClosing_of_isLevel isLevel level)
    (spends_orError_bind fun value isRead => .pure (weighs value isRead))

theorem spends_rParen_bind {α : Type} {next : Unit → ParserM α} {level level' : Nat}
    {post : α → Nat → Prop} {starts : List TokenKind → Prop}
    (rest : Spends Whatever (next ()) level level' fun result spent => post result (0 + spent)) :
    Spends starts (discard (expect host .rParen) >>= next) (level + 1) level' post :=
  spends_expect_bind host (by simp) (fun got same => by cases got <;> first | rfl | cases same)
    (afterClosing_rParen level) rest

theorem spends_rBracket_bind {α : Type} {next : Unit → ParserM α} {level level' : Nat}
    {post : α → Nat → Prop} {starts : List TokenKind → Prop}
    (rest : Spends Whatever (next ()) level level' fun result spent => post result (0 + spent)) :
    Spends starts (discard (expect host .rBracket) >>= next) level level' post :=
  spends_expect_bind host (by simp) (fun got same => by cases got <;> first | rfl | cases same)
    (afterClosing_of_isLevel (by simp [TokenKind.IsLevel]) level) rest

mutual

theorem spends_parseTerm : ∀ fuel level : Nat,
    Spends Whatever (parseTerm host fuel) level level fun term spent => spent = term.words
  | 0, _ => spends_throw _
  | fuel + 1, level => by
    rw [parseTerm]
    refine spends_peek_bind fun kind => ?_
    cases kind with
    | var name => exact spends_leaf (by simp [TokenKind.IsLevel]) (by simp) rfl
    | entity name => exact spends_leaf (by simp [TokenKind.IsLevel]) (by simp) rfl
    | number text =>
      exact spends_literal (by simp [TokenKind.IsLevel]) (by simp) .lit fun _ _ => rfl
    | str text => exact spends_leaf (by simp [TokenKind.IsLevel]) (by simp) rfl
    | bool b => exact spends_leaf (by simp [TokenKind.IsLevel]) (by simp) rfl
    | date text =>
      exact spends_literal (by simp [TokenKind.IsLevel]) (by simp) (fun d => .lit (.date d))
        fun _ _ => rfl
    | duration text =>
      refine spends_literal (by simp [TokenKind.IsLevel]) (by simp) (fun d => .lit (.dur d))
        fun d isRead => ?_
      rw [TokenKind.weight, isRead]
      rfl
    | uri text => exact spends_leaf (by simp [TokenKind.IsLevel]) (by simp) rfl
    | lParen =>
      refine Spends.withDepth (spends_discard_bind (by simp) (afterClosing_lParen level) ?_)
      refine (spends_parsePredicateBodyInner fuel (level + 1)).bind fun pred spent isWords => ?_
      refine spends_rParen_bind host (.pure ?_)
      rw [isWords, Nat.zero_add]
      exact Nat.zero_add _
    | lBracket =>
      refine Spends.withDepth (spends_discard_bind (by simp)
        (afterClosing_of_isLevel (by simp [TokenKind.IsLevel]) level) ?_)
      refine (spends_parseItems fuel level []).bind fun items spent isWords => ?_
      refine spends_rBracket_bind host (.pure ?_)
      rw [Term.words, isWords]
      simp [TokenKind.weight, Term.wordsAll]
    | symbol text => exact spends_leaf (by simp [TokenKind.IsLevel]) (by simp) rfl
    | _ => exact spends_failWith _

theorem spends_parseItems : ∀ (fuel level : Nat) (items : List Term),
    Spends Whatever (parseItems host fuel items) level level
      fun result spent => Term.wordsAll result = Term.wordsAll items + spent
  | 0, _, _ => spends_throw _
  | fuel + 1, level, items => by
    rw [parseItems]
    refine spends_peek_bind fun kind => ?_
    have more : Spends (Next kind)
        (parseTerm host fuel >>= fun term => parseItems host fuel (items ++ [term])) level level
        fun result spent => Term.wordsAll result = Term.wordsAll items + spent := by
      refine (spends_parseTerm fuel level).any.bind fun term spent isWords => ?_
      have others := spends_parseItems fuel level (items ++ [term])
      rw [wordsAll_concat, ← isWords] at others
      simpa only [Nat.add_assoc] using others
    cases kind with
    | rBracket => exact .pure rfl
    | eof => exact .pure rfl
    | _ => exact more

theorem spends_parsePredicateBodyInner : ∀ fuel level : Nat,
    Spends Whatever (parsePredicateBodyInner host fuel) level level
      fun pred spent => spent = pred.words
  | 0, _ => spends_throw _
  | fuel + 1, level => by
    rw [parsePredicateBodyInner]
    refine spends_symbol_bind (fun kind state value after succeeds => ?_) fun text => ?_
    · cases kind with
      | symbol text => exact ⟨text, rfl⟩
      | _ => cases succeeds
    · have arguments := spends_parseArguments fuel level ⟨.name text, [], []⟩ false
      intro before value after isStart succeeds
      obtain ⟨levels, spent, weighs, isWords⟩ := arguments before value after isStart succeeds
      exact ⟨levels, spent, weighs, isWords.symm⟩

theorem spends_parseArguments : ∀ (fuel level : Nat) (pred : Predicate) (inNamed : Bool),
    Spends Whatever (parseArguments host fuel pred inNamed) level level
      fun result spent => result.words = pred.words + spent
  | 0, _, _, _ => spends_throw _
  | fuel + 1, level, ⟨head, args, named⟩, inNamed => by
    rw [parseArguments]
    refine spends_peek_bind fun kind => ?_
    have more : Spends (Next kind) (if inNamed then
        failWith ("NamedArgBeforePositional: positional argument after named argument — " ++
          "named args must be last")
      else parseTerm host fuel >>= fun term =>
        parseArguments host fuel ⟨head, args ++ [term], named⟩ inNamed) level level
        fun result spent => result.words = (Predicate.mk head args named).words + spent := by
      refine .ite (spends_failWith _) ?_
      refine (spends_parseTerm fuel level).any.bind fun term spent isWords => ?_
      have others := spends_parseArguments fuel level ⟨head, args ++ [term], named⟩ inNamed
      have words : (Predicate.mk head (args ++ [term]) named).words =
          (Predicate.mk head args named).words + spent := by
        rw [Predicate.words, Predicate.words, wordsAll_concat, isWords]
        omega
      rw [words] at others
      simpa only [Nat.add_assoc] using others
    cases kind with
    | rParen => exact .pure rfl
    | eof => exact .pure rfl
    | keyword key =>
      refine spends_discard_bind (by simp)
        (afterClosing_of_isLevel (by simp [TokenKind.IsLevel]) level) ?_
      refine (spends_parseTerm fuel level).bind fun term spent isWords => ?_
      have others := spends_parseArguments fuel level ⟨head, args, named ++ [(key, term)]⟩ true
      have words : (Predicate.mk head args (named ++ [(key, term)])).words =
          (Predicate.mk head args named).words + spent := by
        rw [Predicate.words, Predicate.words, wordsNamed_concat, isWords]
        omega
      rw [words] at others
      simpa only [TokenKind.weight, Nat.zero_add, Nat.add_assoc] using others
    | _ => exact more

end

/-- What is expected and found is the next token. -/
theorem expect_ok {kind got : TokenKind} (notEof : kind ≠ .eof)
    (only : ∀ got : TokenKind, got.ctorIdx = kind.ctorIdx → got = kind) {before after : Parser}
    (succeeds : expect host kind before = .ok got after) :
    ∃ rest, before.kinds = kind :: rest ∧ after.kinds = rest ∧ after.depth = before.depth := by
  obtain ⟨tokens, depth⟩ := before
  cases tokens with
  | nil => cases succeeds
  | cons tok tokens =>
    refine ⟨tokens.map (·.kind), ?_⟩
    have succeeds : (if tok.kind.ctorIdx = kind.ctorIdx then advance else _ : ParserM TokenKind)
        ⟨tok :: tokens, depth⟩ = .ok got after := succeeds
    by_cases same : tok.kind.ctorIdx = kind.ctorIdx
    · have isKind := only tok.kind same
      rw [if_pos same, advance_run (by rwa [isKind])] at succeeds
      cases succeeds
      exact ⟨by rw [kinds, List.map_cons, isKind], rfl, rfl⟩
    · rw [if_neg same] at succeeds
      split_ifs at succeeds <;> cases succeeds

/-- A predicate in parentheses is read up to the parenthesis that closes its own. -/
theorem parsePredicateForm_ok {before after : Parser} {pred : Predicate}
    (succeeds : parsePredicateForm host before = .ok pred after) :
    ∃ rest, before.kinds = .lParen :: rest ∧ afterClosing 0 rest = after.kinds ∧
      weigh rest = pred.words + weigh after.kinds := by
  obtain ⟨_, between, ran, rfl⟩ := withDepth_ok succeeds
  rw [discard_bind] at ran
  obtain ⟨_, opened, ranOpen, ran⟩ := bind_eq_ok.mp ran
  rw [Stateful.get_bind_run] at ran
  obtain ⟨_, closing, ranBody, ran⟩ := bind_eq_ok.mp ran
  rw [discard_bind] at ran
  obtain ⟨_, closed, ranClose, ran⟩ := bind_eq_ok.mp ran
  cases ran
  obtain ⟨rest, isOpen, isRest, _⟩ := expect_ok host (by simp)
    (fun got same => by cases got <;> first | rfl | cases same) ranOpen
  obtain ⟨rest', isClose, isRest', _⟩ := expect_ok host (by simp)
    (fun got same => by cases got <;> first | rfl | cases same) ranClose
  obtain ⟨levels, spent, weighs, isWords⟩ :=
    spends_parsePredicateBodyInner host _ 0 opened _ closing trivial ranBody
  rw [isRest, isClose] at levels weighs
  refine ⟨rest, isOpen, ?_, ?_⟩
  · show afterClosing 0 rest = between.kinds
    rw [levels, isRest']
    rfl
  · show weigh rest = _ + weigh between.kinds
    rw [weighs, isWords, isRest', weigh_cons]
    show _ + (0 + _) = _
    rw [Nat.zero_add]

end Methods

end Parser

/-! ### The tokens of a printed predicate -/

section Printed

variable {F : Type} (host : Host F)

theorem afterClosing_entity (entity : EntityId) (level : Nat) (rest : List TokenKind) :
    afterClosing level (entity.readTokens ++ rest) = afterClosing level rest := by
  unfold EntityId.readTokens
  dsimp only
  split_ifs
  · exact afterClosing_of_isLevel (by simp [TokenKind.IsLevel]) level rest
  · exact (afterClosing_of_isLevel (by simp [TokenKind.IsLevel]) level _).trans
      (afterClosing_of_isLevel (by simp [TokenKind.IsLevel]) level rest)

mutual

/-- What a term is read as stays on its level. -/
theorem afterClosing_term : ∀ (term : Term) (level : Nat) (rest : List TokenKind),
    afterClosing level (term.readTokens host ++ rest) = afterClosing level rest
  | .var _, level, rest => afterClosing_of_isLevel (by simp [TokenKind.IsLevel]) level rest
  | .ent entity, level, rest => afterClosing_entity entity level rest
  | .lit literal, level, rest =>
    afterClosing_of_isLevel (by cases literal <;> simp [TokenKind.IsLevel, Literal.token])
      level rest
  | .compound ⟨head, args, named⟩, level, rest => by
    rw [Term.readTokens, Predicate.readTokens, List.cons_append, afterClosing_lParen,
      List.append_assoc, afterClosing_body ⟨head, args, named⟩, List.singleton_append,
      afterClosing_rParen]
  | .list items, level, rest => by
    rw [Term.readTokens, List.cons_append,
      afterClosing_of_isLevel (by simp [TokenKind.IsLevel]), List.append_assoc,
      afterClosing_all items, List.singleton_append,
      afterClosing_of_isLevel (by simp [TokenKind.IsLevel])]

/-- What is between the parentheses of a predicate stays on its level. -/
theorem afterClosing_body : ∀ (pred : Predicate) (level : Nat) (rest : List TokenKind),
    afterClosing level (.symbol (String.ofList (canonicalHead pred.head)) ::
      (Term.readTokensAll host pred.args ++ Term.readTokensNamed host pred.named) ++ rest) =
      afterClosing level rest
  | ⟨head, args, named⟩, level, rest => by
    rw [List.cons_append, afterClosing_of_isLevel (by simp [TokenKind.IsLevel]),
      List.append_assoc, afterClosing_all args, afterClosing_named named]

theorem afterClosing_all : ∀ (items : List Term) (level : Nat) (rest : List TokenKind),
    afterClosing level (Term.readTokensAll host items ++ rest) = afterClosing level rest
  | [], _, _ => rfl
  | term :: others, level, rest => by
    rw [Term.readTokensAll, List.append_assoc, afterClosing_term term, afterClosing_all others]

theorem afterClosing_named : ∀ (named : List (String × Term)) (level : Nat)
    (rest : List TokenKind),
    afterClosing level (Term.readTokensNamed host named ++ rest) = afterClosing level rest
  | [], _, _ => rfl
  | (key, term) :: others, level, rest => by
    rw [Term.readTokensNamed, List.cons_append,
      afterClosing_of_isLevel (by simp [TokenKind.IsLevel]), List.append_assoc,
      afterClosing_term term, afterClosing_named others]

end

/-- An entity counts one word if it is read as one token, and more otherwise. -/
theorem weigh_entity {entity : EntityId}
    (spelled : IsWord isEntityByte entity.asStr ∨ IsSymbol entity.asStr) :
    1 ≤ weigh entity.readTokens ∧
      (weigh entity.readTokens ≤ 1 → IsWord isEntityByte entity.asStr) := by
  have nonempty : entity.asStr.toList ≠ [] := by
    rcases spelled with isWord | isSymbol
    · exact isWord.nonempty
    · exact isSymbol.nonempty
  unfold EntityId.readTokens
  dsimp only
  split_ifs with isWhole
  · refine ⟨le_rfl, fun _ => ⟨nonempty, ?_⟩⟩
    exact List.dropWhile_eq_nil_iff.mp (List.isEmpty_iff.mp isWhole)
  · refine ⟨by simp [TokenKind.weight], fun few => absurd few ?_⟩
    simp [TokenKind.weight]

theorem weigh_literal (literal : Literal) :
    weigh [literal.token host] ≤ 0 → Asks.plain.literal literal := by
  intro none_
  cases literal with
  | dur d =>
    show d.asNanos < 2 ^ 64
    by_contra large
    rw [Nat.not_lt] at large
    have counts : TokenKind.weight (.duration (String.ofList (durationText d))) = 1 := by
      cases read : parseDuration (String.ofList (durationText d)) with
      | ok d' => exact absurd read (parseDuration_durationText_ne large d')
      | error message => rw [TokenKind.weight, read]
    rw [Literal.token, weigh_cons, counts] at none_
    omega
  | _ => trivial

mutual

/-- A printed term counts at least its words, and no more only if it is plain. -/
theorem weigh_term : ∀ term : Term, term.Meets .parsed →
    term.words ≤ weigh (term.readTokens host) ∧
      (weigh (term.readTokens host) ≤ term.words → term.Meets .plain)
  | .var _, _ => ⟨Nat.zero_le _, fun _ => trivial⟩
  | .ent _, parsed => weigh_entity parsed
  | .lit literal, _ => ⟨Nat.zero_le _, weigh_literal host literal⟩
  | .compound pred, parsed => weigh_predicate pred parsed
  | .list items, parsed => by
    obtain ⟨least, plain⟩ := weigh_all items parsed
    rw [Term.readTokens, weigh_cons, weigh_append, Term.words]
    refine ⟨by omega, fun few => plain (by omega)⟩

theorem weigh_predicate : ∀ pred : Predicate, pred.Meets .parsed →
    pred.words ≤ weigh (pred.readTokens host) ∧
      (weigh (pred.readTokens host) ≤ pred.words → pred.Meets .plain)
  | ⟨head, args, named⟩, ⟨_, parsed, parsedNamed⟩ => by
    obtain ⟨least, plain⟩ := weigh_all args parsed
    obtain ⟨leastNamed, plainNamed⟩ := weigh_allNamed named parsedNamed
    have isHead : TokenKind.weight (.symbol (String.ofList (canonicalHead head))) = 1 := rfl
    rw [Predicate.readTokens, weigh_cons, weigh_append, weigh_cons, weigh_append, isHead,
      Predicate.words]
    refine ⟨by omega, fun few => ⟨trivial, plain (by omega), plainNamed (by omega)⟩⟩

theorem weigh_all : ∀ items : List Term, Term.AllMeet .parsed items →
    Term.wordsAll items ≤ weigh (Term.readTokensAll host items) ∧
      (weigh (Term.readTokensAll host items) ≤ Term.wordsAll items → Term.AllMeet .plain items)
  | [], _ => ⟨Nat.zero_le _, fun _ => trivial⟩
  | term :: rest, ⟨parsed, parsedRest⟩ => by
    obtain ⟨least, plain⟩ := weigh_term term parsed
    obtain ⟨leastRest, plainRest⟩ := weigh_all rest parsedRest
    rw [Term.readTokensAll, weigh_append, Term.wordsAll]
    exact ⟨by omega, fun few => ⟨plain (by omega), plainRest (by omega)⟩⟩

theorem weigh_allNamed : ∀ named : List (String × Term), Term.AllMeetNamed .parsed named →
    Term.wordsNamed named ≤ weigh (Term.readTokensNamed host named) ∧
      (weigh (Term.readTokensNamed host named) ≤ Term.wordsNamed named →
        Term.AllMeetNamed .plain named)
  | [], _ => ⟨Nat.zero_le _, fun _ => trivial⟩
  | (key, term) :: rest, ⟨_, parsed, parsedRest⟩ => by
    obtain ⟨least, plain⟩ := weigh_term term parsed
    obtain ⟨leastRest, plainRest⟩ := weigh_allNamed rest parsedRest
    rw [Term.readTokensNamed, weigh_cons, weigh_append, Term.wordsNamed]
    exact ⟨by omega, fun few => ⟨trivial, plain (by omega), plainRest (by omega)⟩⟩

end

/-- On what a printed predicate is read as, a predicate with as many words is read. -/
theorem Parser.parsePredicateForm_printed {before after : Parser} {pred printed : Predicate}
    (succeeds : Parser.parsePredicateForm host before = .ok pred after) {rest : List TokenKind}
    (isKinds : before.kinds = printed.readTokens host ++ rest) :
    after.kinds = rest ∧ weigh (printed.readTokens host) = pred.words := by
  obtain ⟨opened, isOpen, isAfter, weighs⟩ := Parser.parsePredicateForm_ok host succeeds
  obtain ⟨head, args, named⟩ := printed
  have isOpened : opened = .symbol (String.ofList (canonicalHead head)) ::
      (Term.readTokensAll host args ++ Term.readTokensNamed host named) ++ .rParen :: rest := by
    rw [isOpen, Predicate.readTokens, List.cons_append, List.append_assoc] at isKinds
    exact (List.cons.inj isKinds).2
  have isRest : after.kinds = rest := by
    rw [← isAfter, isOpened, afterClosing_body host ⟨head, args, named⟩ 0, afterClosing]
  refine ⟨isRest, ?_⟩
  rw [isRest, isOpened, weigh_append, weigh_cons .rParen] at weighs
  rw [Predicate.readTokens, weigh_cons, weigh_append, weigh_cons .rParen, weigh_nil]
  have lParen : TokenKind.weight .lParen = 0 := rfl
  omega

end Printed

end Factum
