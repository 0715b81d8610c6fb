/-
This file says what the parser makes sure of in the nodes it returns.

Every function of the parser keeps the depth it is called at and drops tokens, so that the
tokens that are left stay as the lexer makes sure. What it returns has words where words
are expected, scores in the unit interval, and no more nesting than is left of the depth.
-/

import Factum.Lexed
import Factum.Printable

namespace Factum

open Stateful Lexer

/-! ### What the parser makes sure of -/

/-- What the parser makes sure of in the parts of a predicate. An entity is a word of the
entity scanner or a bare symbol. -/
def Asks.parsed : Asks :=
  { Asks.lexical with
    entity := fun entity => IsWord isEntityByte entity.asStr ∨ IsSymbol entity.asStr }

/-- What is asked for implies what else is asked for. -/
structure Asks.Implies (asks asks' : Asks) : Prop where
  name : ∀ name, asks.name name → asks'.name name
  head : ∀ head, asks.head head → asks'.head head
  entity : ∀ entity, asks.entity entity → asks'.entity entity
  literal : ∀ literal, asks.literal literal → asks'.literal literal

mutual

theorem Term.Meets.imp {asks asks' : Asks} (implies : asks.Implies asks') :
    ∀ term : Term, term.Meets asks → term.Meets asks'
  | .var name, meets => implies.name name meets
  | .ent entity, meets => implies.entity entity meets
  | .lit literal, meets => implies.literal literal meets
  | .compound pred, meets => Predicate.Meets.imp implies pred meets
  | .list items, meets => Term.AllMeet.imp implies items meets

theorem Predicate.Meets.imp {asks asks' : Asks} (implies : asks.Implies asks') :
    ∀ pred : Predicate, pred.Meets asks → pred.Meets asks'
  | ⟨head, args, named⟩, ⟨isHead, meets, meetsNamed⟩ =>
    ⟨implies.head head isHead, Term.AllMeet.imp implies args meets,
      Term.AllMeetNamed.imp implies named meetsNamed⟩

theorem Term.AllMeet.imp {asks asks' : Asks} (implies : asks.Implies asks') :
    ∀ items : List Term, Term.AllMeet asks items → Term.AllMeet asks' items
  | [], _ => trivial
  | term :: rest, ⟨meets, others⟩ =>
    ⟨Term.Meets.imp implies term meets, Term.AllMeet.imp implies rest others⟩

theorem Term.AllMeetNamed.imp {asks asks' : Asks} (implies : asks.Implies asks') :
    ∀ named : List (String × Term), Term.AllMeetNamed asks named → Term.AllMeetNamed asks' named
  | [], _ => trivial
  | (key, term) :: rest, ⟨isKey, meets, others⟩ =>
    ⟨implies.name key isKey, Term.Meets.imp implies term meets,
      Term.AllMeetNamed.imp implies rest others⟩

end

/-- What makes the text of a predicate the text of its words. -/
def Asks.spelled : Asks :=
  { Asks.parsed with literal := Literal.Closed }

theorem Asks.parsed_implies_spelled : Asks.parsed.Implies .spelled :=
  ⟨fun _ isName => isName, fun _ isHead => isHead, fun _ isEntity => isEntity,
    fun _ isLiteral => closed_of_lexical isLiteral⟩

theorem Asks.parsed_implies_lexical : Asks.parsed.Implies .lexical :=
  ⟨fun _ isName => isName, fun _ isHead => isHead, fun _ _ => trivial, fun _ isLiteral => isLiteral⟩

/-- What the parser makes sure of in a node. -/
structure Node.Parsed {F : Type} [F32 F] (node : Node F) : Prop extends node.Lexical where
  parsed : node.predicate.Meets .parsed

namespace Parser

/-- A parser at a depth whose tokens are as the lexer makes sure. -/
structure Lexed (depth : Nat) (parser : Parser) : Prop where
  depth : parser.depth = depth
  tokens : ∀ tok ∈ parser.tokens, tok.kind.Lexed

variable {α : Type} {depth : Nat}

/-! ### Reading tokens -/

theorem yields_failWith {good : α → Prop} (message : String) :
    Yields (Lexed depth) (failWith message) good := by
  intro _ _ _ _ succeeds
  cases succeeds

theorem yields_orError {good : α → Prop} {read : Except String α}
    (isGood : ∀ value, read = .ok value → good value) :
    Yields (Lexed depth) (orError read) good := by
  cases read with
  | ok value => exact .pure (isGood value rfl)
  | error message => exact yields_failWith message

theorem yields_orError_any (read : Except String α) :
    Yields (Lexed depth) (orError read) fun _ => True := yields_orError fun _ _ => trivial

theorem yields_peekKind : Yields (Lexed depth) peekKind TokenKind.Lexed := by
  intro before kind after lexed succeeds
  unfold peekKind at succeeds
  split at succeeds
  · cases succeeds
  · rename_i tok rest isTokens
    cases succeeds
    exact ⟨lexed, lexed.tokens tok (by rw [isTokens]; exact List.mem_cons_self)⟩

theorem yields_peekKindAt (offset : Nat) :
    Yields (Lexed depth) (peekKindAt offset) fun _ => True :=
  .get_bind fun _ _ => .pure trivial

theorem yields_isAtEnd : Yields (Lexed depth) isAtEnd fun _ => True :=
  yields_peekKind.bind fun _ _ => .pure trivial

theorem yields_advance : Yields (Lexed depth) advance TokenKind.Lexed := by
  intro before kind after lexed succeeds
  unfold advance at succeeds
  split at succeeds
  · cases succeeds
  · rename_i tok rest isTokens
    have isLexed := lexed.tokens tok (by rw [isTokens]; exact List.mem_cons_self)
    split_ifs at succeeds
    · cases succeeds
      exact ⟨lexed, isLexed⟩
    · cases succeeds
      refine ⟨⟨lexed.depth, fun other member => lexed.tokens other ?_⟩, isLexed⟩
      rw [isTokens]
      exact List.mem_cons_of_mem _ member

theorem yields_discard_bind {next : Unit → ParserM α} {good : α → Prop}
    (rest : Yields (Lexed depth) (next ()) good) :
    Yields (Lexed depth) (discard advance >>= next) good :=
  yields_advance.discard.bind fun _ _ => rest

section Methods

variable {F : Type} (host : Host F)

theorem yields_expect (kind : TokenKind) :
    Yields (Lexed depth) (expect host kind) TokenKind.Lexed := by
  refine yields_peekKind.bind fun got _ => .ite (fun _ => yields_advance) fun _ => ?_
  exact .ite (fun _ => yields_failWith _) fun _ => yields_failWith _

theorem yields_expect_bind (kind : TokenKind) {next : Unit → ParserM α} {good : α → Prop}
    (rest : Yields (Lexed depth) (next ()) good) :
    Yields (Lexed depth) (discard (expect host kind) >>= next) good :=
  (yields_expect host kind).discard.bind fun _ _ => rest

/-- A computation one level deeper succeeds where the computation does below the deepest
level. -/
theorem withDepth_ok {computation : ParserM α} {before after : Parser} {value : α}
    (succeeds : withDepth computation before = .ok value after) :
    before.depth < maxParseDepth ∧ ∃ inner,
      computation { before with depth := before.depth + 1 } = .ok value inner ∧
        after = { inner with depth := inner.depth - 1 } := by
  unfold withDepth at succeeds
  split_ifs at succeeds with tooDeep
  refine ⟨Nat.lt_of_not_le tooDeep, ?_⟩
  cases ran : computation { before with depth := before.depth + 1 } with
  | error stop inner =>
    rw [ran] at succeeds
    cases succeeds
  | ok value' inner =>
    rw [ran] at succeeds
    cases succeeds
    exact ⟨inner, rfl, rfl⟩

theorem yields_withDepth {computation : ParserM α} {good : α → Prop}
    (yields : depth < maxParseDepth → Yields (Lexed (depth + 1)) computation good) :
    Yields (Lexed depth) (withDepth computation) good := by
  intro before value after lexed succeeds
  obtain ⟨below, inner, ran, rfl⟩ := withDepth_ok succeeds
  rw [lexed.depth] at below
  have inside : Lexed (depth + 1) { before with depth := before.depth + 1 } :=
    ⟨by rw [lexed.depth], lexed.tokens⟩
  obtain ⟨lexed', isGood⟩ := yields below _ _ _ inside ran
  refine ⟨⟨?_, lexed'.tokens⟩, isGood⟩
  show inner.depth - 1 = depth
  rw [lexed'.depth, Nat.add_sub_cancel]

theorem yields_skipSexpLoop (close : TokenKind) : ∀ fuel open_ : Nat,
    Yields (Lexed depth) (skipSexpLoop close fuel open_) fun _ => True := by
  intro fuel
  induction fuel with
  | zero => exact fun _ => .throw _
  | succ fuel inductionHypothesis =>
    intro open_
    refine yields_isAtEnd.bind fun atEnd _ => .ite (fun _ => .pure trivial) fun _ => ?_
    refine yields_peekKind.bind fun kind _ => yields_discard_bind ?_
    cases kind <;> exact inductionHypothesis _

theorem yields_skipSexp : Yields (Lexed depth) skipSexp fun _ => True := by
  refine yields_peekKind.bind fun kind _ => ?_
  have loop : ∀ close, Yields (Lexed depth) (discard advance >>= fun _ =>
      get >>= fun parser => skipSexpLoop close (parser.tokens.length + 1) 1) fun _ => True :=
    fun close => yields_discard_bind (.get_bind fun _ _ => yields_skipSexpLoop close _ _)
  cases kind with
  | lParen => exact loop .rParen
  | lBracket => exact loop .rBracket
  | _ => exact yields_advance.discard

theorem yields_expectSymbol (expected : String) :
    Yields (Lexed depth) (expectSymbol expected) fun _ => True :=
  yields_peekKind.bind fun _ _ =>
    .ite (fun _ => yields_advance.discard) fun _ => yields_failWith _

/-! ### Tokens with a meaning -/

theorem yields_parseText (message : String) :
    Yields (Lexed depth) (parseText message) fun _ => True := by
  refine yields_advance.bind fun kind _ => ?_
  cases kind with
  | symbol text => exact .pure trivial
  | str text => exact .pure trivial
  | _ => exact yields_failWith _

theorem namedPermission_isNamed {text : String} {tag : PermissionTag}
    (named : namedPermission text = some tag) : tag.IsNamed := by
  unfold namedPermission at named
  split_ifs at named <;> cases named
  · exact .inl rfl
  · exact .inr (.inl rfl)
  · exact .inr (.inr (.inl rfl))
  · exact .inr (.inr (.inr rfl))

theorem yields_parsePermissionTag :
    Yields (Lexed depth) parsePermissionTag PermissionTag.IsNamed := by
  refine yields_advance.bind fun kind _ => ?_
  cases kind with
  | symbol text =>
    dsimp only
    cases named : namedPermission text with
    | some tag => exact .pure (namedPermission_isNamed named)
    | none => exact yields_failWith _
  | _ => exact yields_failWith _

/-- What is done with a token in a list of identifiers. -/
def parseIdListNext (fuel : Nat) (ids : List NodeId) : TokenKind → ParserM (List NodeId)
  | .symbol s => parseIdListLoop fuel (ids ++ [⟨s⟩])
  | _ => failWith "expected node id in deps list"

theorem yields_parseIdListLoop : ∀ (fuel : Nat) (ids : List NodeId),
    (∀ id ∈ ids, IsSymbol id.asStr) →
      Yields (Lexed depth) (parseIdListLoop fuel ids) fun ids => ∀ id ∈ ids, IsSymbol id.asStr := by
  intro fuel
  induction fuel with
  | zero => exact fun _ _ => .throw _
  | succ fuel inductionHypothesis =>
    intro ids symbols
    refine yields_peekKind.bind fun kind _ => ?_
    have more : Yields (Lexed depth) (advance >>= parseIdListNext fuel ids)
        fun ids => ∀ id ∈ ids, IsSymbol id.asStr := by
      refine yields_advance.bind fun kind lexed => ?_
      cases kind with
      | symbol text =>
        refine inductionHypothesis _ fun id member => ?_
        rcases List.mem_append.mp member with before | isLast
        · exact symbols id before
        · rw [List.mem_singleton.mp isLast]
          exact lexed
      | _ => exact yields_failWith _
    cases kind with
    | rBracket => exact .pure symbols
    | eof => exact .pure symbols
    | _ => exact more

theorem yields_parseIdList :
    Yields (Lexed depth) (parseIdList host) fun ids => ∀ id ∈ ids, IsSymbol id.asStr := by
  refine yields_peekKind.bind fun kind _ => .ite (fun _ => ?_) fun _ => ?_
  · refine yields_discard_bind (.get_bind fun _ _ => ?_)
    refine (yields_parseIdListLoop _ [] fun _ member => absurd member List.not_mem_nil).bind
      fun ids symbols => yields_expect_bind host _ (.pure symbols)
  · refine yields_advance.bind fun kind lexed => ?_
    cases kind with
    | symbol text =>
      refine .pure fun id member => ?_
      rw [List.mem_singleton.mp member]
      exact lexed
    | _ => exact yields_failWith _

theorem yields_parseU32 : Yields (Lexed depth) parseU32 fun _ => True := by
  refine yields_advance.bind fun kind _ => ?_
  cases kind with
  | number text =>
    exact (yields_orError_any _).bind fun _ _ => .pure trivial
  | _ => exact yields_failWith _

theorem yields_parseSpan : Yields (Lexed depth) (parseSpan host) fun _ => True := by
  refine yields_peekKind.bind fun kind _ => .ite (fun _ => ?_) fun _ => ?_
  · refine yields_discard_bind (yields_parseU32.bind fun _ _ => yields_parseU32.bind fun _ _ => ?_)
    exact yields_expect_bind host _ (.pure trivial)
  · exact yields_parseU32.bind fun _ _ => yields_parseU32.bind fun _ _ => .pure trivial

theorem yields_parseSmolStr : Yields (Lexed depth) parseSmolStr fun _ => True :=
  yields_parseText _

theorem yields_parseModelRef : Yields (Lexed depth) (parseModelRef host) fun _ => True := by
  have texts : ∀ {next : String → String → ParserM ModelRef},
      (∀ name version, Yields (Lexed depth) (next name version) fun _ => True) →
        Yields (Lexed depth) (parseSmolStr >>= fun name => parseSmolStr >>= next name)
          fun _ => True :=
    fun rest => yields_parseSmolStr.bind fun name _ =>
      yields_parseSmolStr.bind fun version _ => rest name version
  refine yields_peekKind.bind fun kind _ => ?_
  cases kind with
  | lParen =>
    refine yields_discard_bind ((yields_expectSymbol _).bind fun _ _ => texts fun _ _ => ?_)
    exact yields_expect_bind host _ (.pure trivial)
  | symbol text => exact texts fun _ _ => .pure trivial
  | str text => exact texts fun _ _ => .pure trivial
  | _ => exact yields_failWith _

theorem yields_parseProvenanceOf (kind : String) :
    Yields (Lexed depth) (parseProvenanceOf host kind) Provenance.Lexical := by
  have document : ∀ {next : DocId → Span → ParserM Provenance},
      (∀ doc span, Yields (Lexed depth) (next doc span) Provenance.Lexical) →
        Yields (Lexed depth) (parseDocId >>= fun doc => parseSpan host >>= next doc)
          Provenance.Lexical := by
    intro next rest
    have doc : Yields (Lexed depth) parseDocId fun _ => True :=
      (yields_parseText _).bind fun _ _ => .pure trivial
    exact doc.bind fun doc _ => (yields_parseSpan host).bind fun span _ => rest doc span
  refine .ite (fun _ => document fun _ _ => .pure trivial) fun _ => ?_
  refine .ite (fun _ => document fun _ _ => .pure trivial) fun _ => ?_
  refine .ite (fun _ => document fun _ _ => ?_) fun _ => ?_
  · exact (yields_parseModelRef host).bind fun _ _ => .pure trivial
  refine .ite (fun _ => yields_advance.bind fun kind lexed => ?_) fun _ => ?_
  · cases kind with
    | symbol from_ =>
      have rule : Yields (Lexed depth) parseRuleId fun _ => True :=
        yields_parseSmolStr.bind fun _ _ => .pure trivial
      exact rule.bind fun _ _ => .pure lexed
    | _ => exact yields_failWith _
  refine .ite (fun _ => ?_) fun _ => yields_failWith _
  have principal : Yields (Lexed depth) parsePrincipal fun _ => True :=
    yields_parseSmolStr.bind fun _ _ => .pure trivial
  exact principal.bind fun _ _ => .pure trivial

theorem yields_parseProvenance :
    Yields (Lexed depth) (parseProvenance host) Provenance.Lexical := by
  refine yields_expect_bind host _ (yields_advance.bind fun kind _ => ?_)
  cases kind with
  | symbol kind =>
    exact (yields_parseProvenanceOf host kind).bind fun _ lexical =>
      yields_expect_bind host _ (.pure lexical)
  | _ => exact yields_failWith _

theorem yields_parseDatetime : Yields (Lexed depth) (parseDatetime host) fun _ => True := by
  refine yields_advance.bind fun kind _ => ?_
  cases kind with
  | date text =>
    exact (yields_orError_any _).bind fun _ _ => .pure trivial
  | str text => exact yields_orError fun _ _ => trivial
  | _ => exact yields_failWith _

theorem yields_parseValidity : Yields (Lexed depth) (parseValidity host) fun _ => True := by
  refine yields_peekKind.bind fun kind _ => ?_
  have window : Yields (Lexed depth) (discard advance >>= fun _ => expectSymbol "window" >>=
      fun _ => parseDatetime host >>= fun from_ => parseUntil host >>= fun until_ =>
        discard (expect host .rParen) >>= fun _ => pure (Validity.window from_ until_))
      fun _ => True := by
    refine yields_discard_bind ((yields_expectSymbol _).bind fun _ _ => ?_)
    have until_ : Yields (Lexed depth) (parseUntil host) fun _ => True :=
      yields_peekKind.bind fun _ _ => .ite (fun _ => .pure trivial) fun _ =>
        (yields_parseDatetime host).bind fun _ _ => .pure trivial
    refine (yields_parseDatetime host).bind fun _ _ => until_.bind fun _ _ => ?_
    exact yields_expect_bind host _ (.pure trivial)
  split
  · exact yields_discard_bind (.pure trivial)
  · exact window
  · exact yields_failWith _

/-! ### Terms and predicates -/

theorem allMeet_concat {asks : Asks} {items : List Term} {term : Term} :
    Term.AllMeet asks (items ++ [term]) ↔ Term.AllMeet asks items ∧ term.Meets asks := by
  induction items with
  | nil => simp [Term.AllMeet]
  | cons first rest inductionHypothesis =>
    rw [List.cons_append, Term.AllMeet, Term.AllMeet, inductionHypothesis, and_assoc]

theorem allMeetNamed_concat {asks : Asks} {named : List (String × Term)} {key : String}
    {term : Term} : Term.AllMeetNamed asks (named ++ [(key, term)]) ↔
      Term.AllMeetNamed asks named ∧ asks.name key ∧ term.Meets asks := by
  induction named with
  | nil => simp [Term.AllMeetNamed]
  | cons first rest inductionHypothesis =>
    rw [List.cons_append, Term.AllMeetNamed, Term.AllMeetNamed, inductionHypothesis]
    simp only [and_assoc]

theorem nestingAll_concat (items : List Term) (term : Term) :
    Term.nestingAll (items ++ [term]) = max (Term.nestingAll items) term.nesting := by
  induction items with
  | nil => simp [Term.nestingAll]
  | cons first rest inductionHypothesis =>
    rw [List.cons_append, Term.nestingAll, Term.nestingAll, inductionHypothesis, Nat.max_assoc]

theorem nestingNamed_concat (named : List (String × Term)) (key : String) (term : Term) :
    Term.nestingNamed (named ++ [(key, term)]) = max (Term.nestingNamed named) term.nesting := by
  induction named with
  | nil => simp [Term.nestingNamed]
  | cons first rest inductionHypothesis =>
    rw [List.cons_append, Term.nestingNamed, Term.nestingNamed, inductionHypothesis,
      Nat.max_assoc]

/-- What a term that is read at a depth has of nesting and of words. -/
def TermAt (depth : Nat) (term : Term) : Prop :=
  term.Meets .parsed ∧ term.nesting ≤ maxParseDepth - depth

/-- What a predicate whose arguments are read at a depth has. -/
def PredicateAt (depth : Nat) (pred : Predicate) : Prop :=
  pred.Meets .parsed ∧ pred.nesting ≤ maxParseDepth - depth

/-- What terms that are read at a depth have. -/
def TermsAt (depth : Nat) (items : List Term) : Prop :=
  Term.AllMeet .parsed items ∧ Term.nestingAll items ≤ maxParseDepth - depth

theorem TermsAt.concat {items : List Term} {term : Term} (before : TermsAt depth items)
    (last : TermAt depth term) : TermsAt depth (items ++ [term]) := by
  refine ⟨allMeet_concat.mpr ⟨before.1, last.1⟩, ?_⟩
  rw [nestingAll_concat]
  exact Nat.max_le.mpr ⟨before.2, last.2⟩

theorem PredicateAt.positional {head : PredicateHead} {args : List Term}
    {named : List (String × Term)} {term : Term} (before : PredicateAt depth ⟨head, args, named⟩)
    (last : TermAt depth term) : PredicateAt depth ⟨head, args ++ [term], named⟩ := by
  obtain ⟨⟨isHead, meets, meetsNamed⟩, nesting⟩ := before
  rw [Predicate.nesting, Nat.max_le] at nesting
  have args' : TermsAt depth (args ++ [term]) := TermsAt.concat ⟨meets, nesting.1⟩ last
  exact ⟨⟨isHead, args'.1, meetsNamed⟩, Nat.max_le.mpr ⟨args'.2, nesting.2⟩⟩

theorem PredicateAt.keyed {head : PredicateHead} {args : List Term}
    {named : List (String × Term)} {key : String} {term : Term}
    (before : PredicateAt depth ⟨head, args, named⟩) (isKey : IsWord isNameByte key)
    (last : TermAt depth term) : PredicateAt depth ⟨head, args, named ++ [(key, term)]⟩ := by
  obtain ⟨⟨isHead, meets, meetsNamed⟩, nesting⟩ := before
  rw [Predicate.nesting, Nat.max_le] at nesting
  refine ⟨⟨isHead, meets, allMeetNamed_concat.mpr ⟨meetsNamed, isKey, last.1⟩⟩, ?_⟩
  rw [Predicate.nesting, nestingNamed_concat]
  exact Nat.max_le.mpr ⟨nesting.1, Nat.max_le.mpr ⟨nesting.2, last.2⟩⟩

/-- The mantissa of a decimal that is read is within the largest one. -/
theorem literal_decFromStr {F : Type} {text : String} {literal : Literal}
    (read : (Literal.decFromStr text : Except (CoreError F) Literal) = .ok literal) :
    Asks.lexical.literal literal := by
  unfold Literal.decFromStr at read
  dsimp only at read
  split_ifs at read with _ _ tooLarge
  split at read
  · rename_i mantissa isMantissa
    cases read
    unfold I128.ofInt? at isMantissa
    split_ifs at isMantissa
    cases isMantissa
    show Int.natAbs _ ≤ i128Max
    have sign : (splitSign (trim text.toList)).1.natAbs = 1 := by
      unfold splitSign
      split <;> rfl
    rw [Int.natAbs_mul, sign, Nat.mul_one, Int.natAbs_natCast]
    exact Nat.le_of_not_lt tooLarge
  · cases read

mutual

theorem yields_parseTerm : ∀ (fuel depth : Nat),
    Yields (Lexed depth) (parseTerm host fuel) (TermAt depth)
  | 0, _ => .throw _
  | fuel + 1, depth => by
    rw [parseTerm]
    refine yields_peekKind.bind fun kind lexed => ?_
    have leaf : ∀ {term : Term}, term.nesting = 0 → term.Meets .parsed →
        Yields (Lexed depth) (pure term : ParserM Term) (TermAt depth) :=
      fun flat meets => .pure ⟨meets, flat ▸ Nat.zero_le _⟩
    cases kind with
    | var name => exact yields_discard_bind (leaf rfl lexed)
    | entity name => exact yields_discard_bind (leaf rfl (.inl lexed))
    | number text =>
      have literal : Yields (Lexed depth)
          (orError ((Literal.decFromStr text).mapError (CoreError.display host)))
          Asks.lexical.literal := by
        refine yields_orError fun literal read => ?_
        cases isRead : (Literal.decFromStr text : Except (CoreError F) Literal) with
        | ok literal' =>
          rw [isRead] at read
          cases read
          exact literal_decFromStr isRead
        | error error =>
          rw [isRead] at read
          cases read
      exact yields_discard_bind (literal.bind fun literal isLexical => leaf rfl isLexical)
    | str text => exact yields_discard_bind (leaf rfl trivial)
    | bool b => exact yields_discard_bind (leaf rfl trivial)
    | date text =>
      exact yields_discard_bind ((yields_orError_any _).bind fun _ _ => leaf rfl trivial)
    | duration text =>
      exact yields_discard_bind ((yields_orError_any _).bind fun _ _ => leaf rfl trivial)
    | uri text => exact yields_discard_bind (leaf rfl lexed)
    | lParen =>
      refine yields_withDepth fun below => yields_discard_bind ?_
      refine (yields_parsePredicateBodyInner fuel (depth + 1)).bind fun pred inside => ?_
      refine yields_expect_bind host _ (.pure ⟨inside.1, ?_⟩)
      have nesting := inside.2
      rw [Term.nesting]
      omega
    | lBracket =>
      refine yields_withDepth fun below => yields_discard_bind ?_
      have none_ : TermsAt (depth + 1) [] := ⟨trivial, Nat.zero_le _⟩
      refine (yields_parseItems fuel (depth + 1) [] none_).bind fun items inside => ?_
      refine yields_expect_bind host _ (.pure ⟨inside.1, ?_⟩)
      have nesting := inside.2
      rw [Term.nesting]
      omega
    | symbol text => exact yields_discard_bind (leaf rfl (.inr lexed))
    | _ => exact yields_failWith _

theorem yields_parseItems : ∀ (fuel depth : Nat) (items : List Term), TermsAt depth items →
    Yields (Lexed depth) (parseItems host fuel items) (TermsAt depth)
  | 0, _, _, _ => .throw _
  | fuel + 1, depth, items, before => by
    rw [parseItems]
    refine yields_peekKind.bind fun kind _ => ?_
    have more : Yields (Lexed depth)
        (parseTerm host fuel >>= fun term => parseItems host fuel (items ++ [term]))
        (TermsAt depth) :=
      (yields_parseTerm fuel depth).bind fun term last =>
        yields_parseItems fuel depth _ (before.concat last)
    cases kind with
    | rBracket => exact .pure before
    | eof => exact .pure before
    | _ => exact more

theorem yields_parsePredicateBodyInner : ∀ (fuel depth : Nat),
    Yields (Lexed depth) (parsePredicateBodyInner host fuel) (PredicateAt depth)
  | 0, _ => .throw _
  | fuel + 1, depth => by
    rw [parsePredicateBodyInner]
    refine yields_advance.bind fun kind lexed => ?_
    cases kind with
    | symbol text =>
      exact yields_parseArguments fuel depth _ false ⟨⟨lexed, trivial, trivial⟩, Nat.zero_le _⟩
    | _ => exact yields_failWith _

theorem yields_parseArguments : ∀ (fuel depth : Nat) (pred : Predicate) (inNamed : Bool),
    PredicateAt depth pred →
    Yields (Lexed depth) (parseArguments host fuel pred inNamed) (PredicateAt depth)
  | 0, _, _, _, _ => .throw _
  | fuel + 1, depth, ⟨head, args, named⟩, inNamed, before => by
    rw [parseArguments]
    refine yields_peekKind.bind fun kind lexed => ?_
    have more : Yields (Lexed depth) (if inNamed then
        failWith ("NamedArgBeforePositional: positional argument after named argument — " ++
          "named args must be last")
      else parseTerm host fuel >>= fun term =>
        parseArguments host fuel ⟨head, args ++ [term], named⟩ inNamed) (PredicateAt depth) := by
      refine .ite (fun _ => yields_failWith _) fun _ => ?_
      exact (yields_parseTerm fuel depth).bind fun term last =>
        yields_parseArguments fuel depth _ _ (before.positional last)
    cases kind with
    | rParen => exact .pure before
    | eof => exact .pure before
    | keyword key =>
      refine yields_discard_bind ((yields_parseTerm fuel depth).bind fun term last => ?_)
      exact yields_parseArguments fuel depth _ true (before.keyed lexed last)
    | _ => exact more

end

theorem yields_parsePredicateForm :
    Yields (Lexed depth) (parsePredicateForm host) (PredicateAt (depth + 1)) := by
  refine yields_withDepth fun _ => yields_expect_bind host _ (.get_bind fun _ _ => ?_)
  exact (yields_parsePredicateBodyInner host _ (depth + 1)).bind fun pred inside =>
    yields_expect_bind host _ (.pure inside)

/-! ### Nodes -/

variable [F32 F]

/-- The scores that a node has by default lie in the unit interval. -/
def DefaultsInUnit (F : Type) [F32 F] : Prop :=
  F32.inUnit (F32.lit 60 2 : F) = true ∧ F32.inUnit (F32.lit 5 1 : F) = true

/-- What the fields of a node that is read at a depth have. -/
structure FieldsAt (depth : Nat) (fields : NodeFields F) : Prop where
  predicate : ∀ pred ∈ fields.predicate, PredicateAt (depth + 1) pred
  provenance : fields.provenance.Lexical
  confidence : DefaultsInUnit F → F32.inUnit fields.confidence.value = true
  authority : DefaultsInUnit F → F32.inUnit fields.authority.value = true
  permissions : fields.permissions.IsNamed
  deps : ∀ dep ∈ fields.deps, IsSymbol dep.asStr

theorem fieldsAt_default : FieldsAt depth (.default : NodeFields F) where
  predicate _ absurd := by cases absurd
  provenance := trivial
  confidence defaults := defaults.1
  authority defaults := defaults.2
  permissions := .inl rfl
  deps _ absurd := by cases absurd

/-- A number that is read and checked to be in the unit interval. -/
theorem yields_score {Score : Type} {check : F → Except (CoreError F) Score} {value : Score → F}
    (checks : ∀ {v score}, check v = .ok score → F32.inUnit (value score) = true)
    {next : Score → ParserM (NodeFields F)} {good : NodeFields F → Prop}
    (rest : ∀ score, F32.inUnit (value score) = true → Yields (Lexed depth) (next score) good) :
    Yields (Lexed depth)
      (parseF32 host >>= fun v => orError ((check v).mapError (CoreError.display host)) >>= next)
      good := by
  have number : Yields (Lexed depth) (parseF32 host) fun _ => True := by
    refine yields_advance.bind fun kind _ => ?_
    cases kind with
    | number text => exact yields_orError fun _ _ => trivial
    | _ => exact yields_failWith _
  refine number.bind fun v _ => ?_
  have score : Yields (Lexed depth) (orError ((check v).mapError (CoreError.display host)))
      fun score => F32.inUnit (value score) = true := by
    refine yields_orError fun score read => ?_
    cases checked : check v with
    | ok score' =>
      rw [checked] at read
      cases read
      exact checks checked
    | error error =>
      rw [checked] at read
      cases read
  exact score.bind rest

theorem inUnit_confidence {v : F} {score : Confidence F} (checked : Confidence.new v = .ok score) :
    F32.inUnit score.value = true := by
  unfold Confidence.new at checked
  split_ifs at checked with inUnit
  cases checked
  exact inUnit

theorem inUnit_authority {v : F} {score : Authority F} (checked : Authority.new v = .ok score) :
    F32.inUnit score.value = true := by
  unfold Authority.new at checked
  split_ifs at checked with inUnit
  cases checked
  exact inUnit

theorem yields_parseField {fields : NodeFields F} (key : String) (before : FieldsAt depth fields) :
    Yields (Lexed depth) (parseField host fields key) (FieldsAt depth) := by
  refine .ite (fun _ => ?_) fun _ => .ite (fun _ => ?_) fun _ => .ite (fun _ => ?_) fun _ =>
    .ite (fun _ => ?_) fun _ => .ite (fun _ => ?_) fun _ => .ite (fun _ => ?_) fun _ =>
    .ite (fun _ => ?_) fun _ => .ite (fun _ => ?_) fun _ => yields_failWith _
  · refine (yields_parsePredicateForm host).bind fun pred inside => .pure { before with
      predicate := fun pred' isPred => ?_ }
    cases isPred
    exact inside
  · exact (yields_parseValidity host).bind fun _ _ => .pure { before with }
  · exact (yields_parseProvenance host).bind fun _ lexical => .pure { before with
      provenance := lexical }
  · exact yields_score host inUnit_confidence fun _ inUnit => .pure { before with
      confidence := fun _ => inUnit }
  · exact yields_score host inUnit_authority fun _ inUnit => .pure { before with
      authority := fun _ => inUnit }
  · exact yields_parsePermissionTag.bind fun _ isNamed => .pure { before with
      permissions := isNamed }
  · exact (yields_parseIdList host).bind fun _ symbols => .pure { before with deps := symbols }
  · exact (yields_parseText _).bind fun _ _ => .pure { before with }

theorem yields_parseFields : ∀ (fuel : Nat) (fields : NodeFields F), FieldsAt depth fields →
    Yields (Lexed depth) (parseFields host fuel fields) (FieldsAt depth) := by
  intro fuel
  induction fuel with
  | zero => exact fun _ _ => .throw _
  | succ fuel inductionHypothesis =>
    intro fields before
    refine yields_peekKind.bind fun kind _ => ?_
    cases kind with
    | rParen => exact .pure before
    | eof => exact .pure before
    | keyword key =>
      exact yields_discard_bind ((yields_parseField host key before).bind inductionHypothesis)
    | _ => exact yields_failWith _

/-- What the parser makes sure of in a node, its scores aside where the default scores are not
known to be in the unit interval. -/
def ReadsAs (node : Node F) : Prop :=
  node.predicate.Meets .parsed ∧ (DefaultsInUnit F → node.Parsed)

theorem yields_parseNode :
    Yields (Lexed 0) (parseNode host) fun node => ReadsAs node ∧ node.status = .active := by
  refine yields_withDepth fun _ => yields_expect_bind host _ ((yields_expectSymbol _).bind
    fun _ _ => yields_advance.bind fun kind lexed => ?_)
  cases kind with
  | symbol id =>
    refine .get_bind fun _ _ => (yields_parseFields host _ _ fieldsAt_default).bind
      fun fields read => yields_expect_bind host _ ?_
    cases isPredicate : fields.predicate with
    | none => exact yields_failWith _
    | some predicate =>
      obtain ⟨meets, nesting⟩ := read.predicate predicate isPredicate
      refine .pure ⟨⟨meets, fun defaults => ?_⟩, rfl⟩
      exact
        { active := rfl
          id := lexed
          predicate := meets.imp Asks.parsed_implies_lexical
          nesting := nesting
          provenance := read.provenance
          confidence := read.confidence defaults
          authority := read.authority defaults
          permissions := read.permissions
          deps := read.deps
          parsed := meets }
  | _ => exact yields_failWith _

theorem yields_parseTop {good : Node F → Prop} (each : Yields (Lexed 0) (parseNode host) good) :
    ∀ (fuel : Nat) (nodes : List (Node F)), (∀ node ∈ nodes, good node) →
      Yields (Lexed 0) (parseTop host fuel nodes) fun nodes => ∀ node ∈ nodes, good node := by
  intro fuel
  induction fuel with
  | zero => exact fun _ _ => .throw _
  | succ fuel inductionHypothesis =>
    intro nodes parsed
    refine yields_peekKind.bind fun kind _ => ?_
    cases kind with
    | eof => exact .pure parsed
    | lParen =>
      refine (yields_peekKindAt 1).bind fun second _ => .ite (fun _ => ?_) fun _ => ?_
      · refine each.bind fun node isParsed => inductionHypothesis _ ?_
        intro node' member
        rcases List.mem_append.mp member with before | isLast
        · exact parsed node' before
        · rwa [List.mem_singleton.mp isLast]
      · exact yields_skipSexp.bind fun _ _ => inductionHypothesis _ parsed
    | _ => exact yields_discard_bind (inductionHypothesis _ parsed)

theorem lexed_tokensOf {src : String} {tokens : List Token} (read : tokensOf src = .ok tokens) :
    ∀ tok ∈ tokens, tok.kind.Lexed := by
  unfold tokensOf at read
  split at read
  · cases read
  · cases read
  · cases read
  · rename_i tokens' tokenized
    split_ifs at read
    cases read
    exact lexed_of_tokenize tokenized

/-- Every node of a text is as the parser makes sure, and active. -/
theorem readsAs_of_parse {src : String} {nodes : List (Node F)}
    (parsed : parse host src = .ok nodes) :
    ∀ node ∈ nodes, ReadsAs node ∧ node.status = .active := by
  unfold parse at parsed
  cases read : tokensOf src with
  | error stop =>
    rw [read] at parsed
    cases parsed
  | ok tokens =>
    rw [read] at parsed
    have answered : answer (parseTop host (tokens.length + 1) []) ⟨tokens, 0⟩ = .ok nodes :=
      parsed
    obtain ⟨after, ran⟩ := answer_eq_ok.mp answered
    exact (yields_parseTop host (yields_parseNode host) _ []
      (fun _ member => absurd member List.not_mem_nil) _ _ _ ⟨rfl, lexed_tokensOf read⟩ ran).2

theorem parsed_of_parse {host : Host F} (lawful : host.Lawful) {src : String}
    {nodes : List (Node F)} (parsed : parse host src = .ok nodes) :
    ∀ node ∈ nodes, node.Parsed :=
  fun node member => (readsAs_of_parse host parsed node member).1.2 lawful.default_inUnit

end Methods

/-! ### The predicates that the parser returns -/

section Produced

variable {F : Type} (host : Host F)

/-- A predicate that the parser returns for some text, alone or in a node. -/
def Produces [F32 F] (pred : Predicate) : Prop :=
  (∃ src, parsePredicate host src = .ok pred) ∨
    ∃ src nodes, parse host src = .ok nodes ∧ ∃ node ∈ nodes, node.predicate = pred

theorem yields_parsePredicateBody {depth : Nat} :
    Yields (Lexed depth) (parsePredicateBody host) (PredicateAt (depth + 1)) :=
  yields_withDepth fun _ => .get_bind fun _ _ =>
    yields_parsePredicateBodyInner host _ (depth + 1)

/-- A predicate that is parsed alone is as the parser makes sure. -/
theorem meets_of_parsePredicate {src : String} {pred : Predicate}
    (parsed : parsePredicate host src = .ok pred) : pred.Meets .parsed := by
  unfold parsePredicate at parsed
  cases read : tokensOf src with
  | error stop =>
    rw [read] at parsed
    cases parsed
  | ok tokens =>
    rw [read] at parsed
    have yields : Yields (Lexed 0) (do
        discard (expect host .lParen)
        let pred ← parsePredicateBody host
        discard (expect host .rParen)
        return pred) (PredicateAt 1) :=
      yields_expect_bind host _ ((yields_parsePredicateBody host).bind fun pred inside =>
        yields_expect_bind host _ (.pure inside))
    have answered : answer (do
        discard (expect host .lParen)
        let pred ← parsePredicateBody host
        discard (expect host .rParen)
        return pred) ⟨tokens, 0⟩ = .ok pred := parsed
    obtain ⟨after, ran⟩ := answer_eq_ok.mp answered
    exact (yields _ _ _ ⟨rfl, lexed_tokensOf read⟩ ran).2.1

theorem Produces.meets [F32 F] {pred : Predicate} (produced : Produces host pred) :
    pred.Meets .parsed := by
  rcases produced with ⟨src, parsed⟩ | ⟨src, nodes, parsed, node, member, rfl⟩
  · exact meets_of_parsePredicate host parsed
  · exact (readsAs_of_parse host parsed node member).1.1

end Produced

end Parser

end Factum
