/-
This file proves that the parser reads the tokens of a printed node as the node.

A computation of the parser takes tokens of certain kinds when it reads them, whatever
the tokens after them are, and is back at its depth with a value. Loops look at the
token after the last one that they take, so what follows may have to be of a kind.
-/

import Factum.Printed

namespace Factum

open Stateful Lexer

namespace Parser

/-! ### Taking tokens -/

/-- At a depth the computation takes tokens of these kinds and returns a value, when the
token after them is of a kind that may follow. -/
structure Takes {α : Type} (follows : TokenKind → Prop) (computation : ParserM α) (depth : Nat)
    (kinds : List TokenKind) (value : α) : Prop where
  run : ∀ (tokens : List Token) (tok : Token) (rest : List Token),
    tokens.map (·.kind) = kinds → follows tok.kind →
    computation ⟨tokens ++ tok :: rest, depth⟩ = .ok value ⟨tok :: rest, depth⟩

/-- Any token may follow. -/
def AnyKind (_ : TokenKind) : Prop := True

section Rules

variable {α β : Type} {follows : TokenKind → Prop} {depth : Nat}

theorem takes_pure (value : α) : Takes follows (pure value : ParserM α) depth [] value := by
  refine ⟨fun tokens tok rest areKinds _ => ?_⟩
  rw [List.map_eq_nil_iff.mp areKinds]
  rfl

/-- One computation after another, where the first one looks at the token after it. -/
theorem Takes.bindBefore {follows' : TokenKind → Prop} {first : ParserM α}
    {next : α → ParserM β} {kind : TokenKind} {kinds kinds' : List TokenKind} {value : α}
    {result : β} (takes : Takes follows' first depth kinds value) (may : follows' kind)
    (takes' : Takes follows (next value) depth (kind :: kinds') result) :
    Takes follows (first >>= next) depth (kinds ++ kind :: kinds') result := by
  refine ⟨fun tokens tok rest areKinds follow => ?_⟩
  obtain ⟨front, back, rfl, areFirst, areSecond⟩ := List.map_eq_append_iff.mp areKinds
  obtain ⟨closing, others, rfl, isKind, areOthers⟩ := List.map_eq_cons_iff.mp areSecond
  have ran : first ⟨front ++ closing :: (others ++ tok :: rest), depth⟩ =
      .ok value ⟨closing :: (others ++ tok :: rest), depth⟩ :=
    takes.run front closing _ areFirst (by rw [isKind]; exact may)
  rw [List.append_assoc, List.cons_append, bind_ok ran]
  exact takes'.run (closing :: others) tok rest areSecond follow

/-- One computation after another. -/
theorem Takes.bind {first : ParserM α} {next : α → ParserM β} {kinds kinds' : List TokenKind}
    {value : α} {result : β} (takes : Takes AnyKind first depth kinds value)
    (takes' : Takes follows (next value) depth kinds' result) :
    Takes follows (first >>= next) depth (kinds ++ kinds') result := by
  cases kinds' with
  | cons kind kinds' => exact takes.bindBefore trivial takes'
  | nil =>
    refine ⟨fun tokens tok rest areKinds follow => ?_⟩
    rw [List.append_nil] at areKinds
    rw [bind_ok (takes.run tokens tok rest areKinds trivial)]
    exact takes'.run [] tok rest rfl follow

/-- One token, and what comes after it. -/
theorem Takes.cons {first : ParserM α} {next : α → ParserM β} {kind : TokenKind}
    {kinds : List TokenKind} {value : α} {result : β}
    (takes : Takes AnyKind first depth [kind] value)
    (takes' : Takes follows (next value) depth kinds result) :
    Takes follows (first >>= next) depth (kind :: kinds) result :=
  takes.bind takes'

/-- No token, where the token after it is looked at. -/
theorem Takes.nilBefore {follows' : TokenKind → Prop} {first : ParserM α}
    {next : α → ParserM β} {kind : TokenKind} {kinds : List TokenKind} {value : α} {result : β}
    (takes : Takes follows' first depth [] value) (may : follows' kind)
    (takes' : Takes follows (next value) depth (kind :: kinds) result) :
    Takes follows (first >>= next) depth (kind :: kinds) result :=
  takes.bindBefore may takes'

/-- What is done with the value takes nothing. -/
theorem Takes.bind_pure {first : ParserM α} {f : α → β} {kinds : List TokenKind} {value : α}
    (takes : Takes follows first depth kinds value) :
    Takes follows (first >>= fun value => pure (f value)) depth kinds (f value) := by
  refine ⟨fun tokens tok rest areKinds follow => ?_⟩
  rw [bind_ok (takes.run tokens tok rest areKinds follow)]
  rfl

/-- The kind of the next token decides what is done. -/
theorem takes_peek_bind {next : TokenKind → ParserM β} {kind : TokenKind}
    {kinds : List TokenKind} {result : β}
    (takes : Takes follows (next kind) depth (kind :: kinds) result) :
    Takes follows (peekKind >>= next) depth (kind :: kinds) result := by
  refine ⟨fun tokens tok rest areKinds follow => ?_⟩
  have ran := takes.run tokens tok rest areKinds follow
  obtain ⟨first, others, rfl, rfl, -⟩ := List.map_eq_cons_iff.mp areKinds
  exact ran

/-- The kind of the token that follows decides what is done at the end. -/
theorem takes_peek_bind_nil {next : TokenKind → ParserM β} {result : β}
    (takes : ∀ kind, follows kind → Takes (· = kind) (next kind) depth [] result) :
    Takes follows (peekKind >>= next) depth [] result := by
  refine ⟨fun tokens tok rest areKinds follow => ?_⟩
  rw [List.map_eq_nil_iff.mp areKinds]
  exact (takes tok.kind follow).run [] tok rest rfl rfl

theorem advance_run {tok : Token} (notEof : tok.kind ≠ .eof) (rest : List Token) (depth : Nat) :
    advance ⟨tok :: rest, depth⟩ = .ok tok.kind ⟨rest, depth⟩ := by
  show (if tok.kind = .eof then _ else _) = _
  rw [if_neg notEof]

theorem takes_advance {kind : TokenKind} (notEof : kind ≠ .eof) :
    Takes follows advance depth [kind] kind := by
  refine ⟨fun tokens tok rest areKinds _ => ?_⟩
  obtain ⟨first, others, rfl, rfl, areOthers⟩ := List.map_eq_cons_iff.mp areKinds
  rw [List.map_eq_nil_iff.mp areOthers]
  exact advance_run notEof _ _

/-- A value that is not used. -/
theorem Takes.discard {first : ParserM α} {kinds : List TokenKind} {value : α}
    (takes : Takes follows first depth kinds value) :
    Takes follows (discard first) depth kinds () :=
  ⟨fun tokens tok rest areKinds follow => discard_ok (takes.run tokens tok rest areKinds follow)⟩

theorem takes_advance_bind {next : TokenKind → ParserM β} {kind : TokenKind}
    {kinds : List TokenKind} {result : β} (notEof : kind ≠ .eof)
    (takes : Takes follows (next kind) depth kinds result) :
    Takes follows (advance >>= next) depth (kind :: kinds) result :=
  (takes_advance notEof).bind takes

theorem takes_discard_bind {next : Unit → ParserM β} {kind : TokenKind}
    {kinds : List TokenKind} {result : β} (notEof : kind ≠ .eof)
    (takes : Takes follows (next ()) depth kinds result) :
    Takes follows (discard advance >>= next) depth (kind :: kinds) result :=
  (takes_advance notEof).discard.bind takes

theorem takes_expect {F : Type} {host : Host F} {expected kind : TokenKind} (notEof : kind ≠ .eof)
    (same : kind.ctorIdx = expected.ctorIdx) :
    Takes AnyKind (expect host expected) depth [kind] kind := by
  unfold expect
  refine takes_peek_bind ?_
  rw [if_pos same]
  exact takes_advance notEof

theorem takes_discard_expect {F : Type} {host : Host F} (kind : TokenKind)
    (notEof : kind ≠ .eof) : Takes AnyKind (discard (expect host kind)) depth [kind] () :=
  (takes_expect notEof rfl).discard

theorem takes_expectSymbol (text : String) :
    Takes AnyKind (expectSymbol text) depth [.symbol text] () := by
  unfold expectSymbol
  refine takes_peek_bind ?_
  rw [if_pos rfl]
  exact (takes_advance (by simp)).discard

theorem takes_orError {read : Except String α} {value : α} (reads : read = .ok value) :
    Takes follows (orError read) depth [] value := by
  rw [reads]
  exact takes_pure value

/-- The state may be looked at: it has at least the tokens that are taken. -/
theorem takes_get_bind {next : Parser → ParserM β} {kinds : List TokenKind} {result : β}
    (takes : ∀ parser : Parser, kinds.length ≤ parser.tokens.length →
      Takes follows (next parser) depth kinds result) :
    Takes follows (get >>= next) depth kinds result := by
  refine ⟨fun tokens tok rest areKinds follow => ?_⟩
  rw [Stateful.get_bind_run]
  refine (takes _ ?_).run tokens tok rest areKinds follow
  rw [← areKinds, List.length_map, List.length_append]
  exact Nat.le_add_right _ _

/-- A computation one level deeper. -/
theorem Takes.withDepth {computation : ParserM α} {kinds : List TokenKind} {value : α}
    (takes : Takes follows computation (depth + 1) kinds value) (shallow : depth < maxParseDepth) :
    Takes follows (withDepth computation) depth kinds value := by
  refine ⟨fun tokens tok rest areKinds follow => ?_⟩
  unfold Parser.withDepth
  rw [if_neg (Nat.not_le.mpr shallow)]
  simp only [takes.run tokens tok rest areKinds follow, Nat.add_sub_cancel]

end Rules

/-! ### Terms -/

/-- A token that starts a printed term. -/
def StartsTerm (kind : TokenKind) : Prop :=
  kind ≠ .rParen ∧ kind ≠ .rBracket ∧ kind ≠ .eof ∧ ∀ key, kind ≠ .keyword key

section Terms

variable {F : Type} {host : Host F}

theorem tokens_startsTerm (host : Host F) (term : Term) :
    ∃ kind kinds, term.tokens host = kind :: kinds ∧ StartsTerm kind := by
  cases term with
  | var name => exact ⟨_, _, rfl, by simp [StartsTerm]⟩
  | ent entity => exact ⟨_, _, rfl, by simp [StartsTerm]⟩
  | lit literal =>
    refine ⟨literal.token host, [], rfl, ?_⟩
    cases literal <;> simp [StartsTerm, Literal.token]
  | compound pred =>
    obtain ⟨head, args, named⟩ := pred
    exact ⟨_, _, rfl, by simp [StartsTerm]⟩
  | list items => exact ⟨_, _, rfl, by simp [StartsTerm]⟩

/-- A list ends at its closing bracket. -/
theorem takes_parseItems_nil (fuel depth : Nat) (items : List Term) :
    Takes (· = .rBracket) (parseItems host (fuel + 1) items) depth [] items := by
  rw [parseItems]
  refine takes_peek_bind_nil ?_
  rintro kind rfl
  exact takes_pure items

/-- Where a list goes on, its next item is read. -/
theorem takes_parseItems_step {fuel depth : Nat} {items result : List Term} {term : Term}
    {kinds : List TokenKind}
    (takes : Takes AnyKind (parseTerm host fuel) depth (term.tokens host) term)
    (rest : Takes (· = .rBracket) (parseItems host fuel (items ++ [term])) depth kinds result) :
    Takes (· = .rBracket) (parseItems host (fuel + 1) items) depth (term.tokens host ++ kinds)
      result := by
  have both : Takes (· = .rBracket)
      (parseTerm host fuel >>= fun term => parseItems host fuel (items ++ [term])) depth
      (term.tokens host ++ kinds) result := takes.bind rest
  obtain ⟨kind, others, shape, _, notBracket, notEof, _⟩ := tokens_startsTerm host term
  rw [shape, List.cons_append] at both ⊢
  rw [parseItems]
  refine takes_peek_bind ?_
  split
  · exact absurd rfl notBracket
  · exact absurd rfl notEof
  · exact both

/-- Where positional arguments go on, the next one is read. -/
theorem takes_parseArguments_step {fuel depth : Nat} {pred result : Predicate} {term : Term}
    {kinds : List TokenKind}
    (takes : Takes AnyKind (parseTerm host fuel) depth (term.tokens host) term)
    (rest : Takes (· = .rParen)
      (parseArguments host fuel { pred with args := pred.args ++ [term] } false) depth kinds
      result) :
    Takes (· = .rParen) (parseArguments host (fuel + 1) pred false) depth
      (term.tokens host ++ kinds) result := by
  have both : Takes (· = .rParen)
      (parseTerm host fuel >>= fun term =>
        parseArguments host fuel { pred with args := pred.args ++ [term] } false) depth
      (term.tokens host ++ kinds) result := takes.bind rest
  obtain ⟨kind, others, shape, notParen, _, notEof, notKeyword⟩ :=
    tokens_startsTerm host term
  rw [shape, List.cons_append] at both ⊢
  rw [parseArguments]
  refine takes_peek_bind ?_
  split
  · exact absurd rfl notParen
  · exact absurd rfl notEof
  · exact absurd rfl (notKeyword _)
  · exact both

/-- The arguments end at the closing parenthesis. -/
theorem takes_parseArguments_nil (fuel depth : Nat) (pred : Predicate) (inNamed : Bool) :
    Takes (· = .rParen) (parseArguments host (fuel + 1) pred inNamed) depth [] pred := by
  rw [parseArguments]
  refine takes_peek_bind_nil ?_
  rintro kind rfl
  exact takes_pure pred

variable [F32 F]

theorem takes_literal (lawful : host.Lawful) {literal : Literal}
    (lexical : Asks.lexical.literal literal) (plain : Asks.plain.literal literal)
    (fuel depth : Nat) :
    Takes AnyKind (parseTerm host (fuel + 1)) depth [literal.token host] (.lit literal) := by
  rw [parseTerm]
  refine takes_peek_bind ?_
  cases literal with
  | dec mantissa scale =>
    refine takes_discard_bind (by simp [Literal.token]) ((takes_orError ?_).bind (takes_pure _))
    rw [decFromStr_decToString scale lexical]
    rfl
  | str text => exact takes_discard_bind (by simp [Literal.token]) (takes_pure _)
  | date d =>
    exact takes_discard_bind (by simp [Literal.token])
      ((takes_orError (lawful.date_inverse d)).bind (takes_pure _))
  | dur d =>
    exact takes_discard_bind (by simp [Literal.token])
      ((takes_orError (parseDuration_durationText plain)).bind (takes_pure _))
  | bool b => exact takes_discard_bind (by simp [Literal.token]) (takes_pure _)
  | uri text => exact takes_discard_bind (by simp [Literal.token]) (takes_pure _)

omit [F32 F] in
theorem length_tokens_pos (host : Host F) (term : Term) : 0 < (term.tokens host).length :=
  List.length_pos_of_ne_nil term.tokens_ne_nil

/-- The tokens of a predicate between its parentheses. -/
def bodyTokens (host : Host F) (pred : Predicate) : List TokenKind :=
  .symbol (String.ofList (canonicalHead pred.head)) ::
    (Term.tokensAll host pred.args ++ Term.tokensNamed host pred.named)

omit [F32 F] in
theorem tokens_predicate (pred : Predicate) :
    pred.tokens host = .lParen :: (bodyTokens host pred ++ [.rParen]) := by
  obtain ⟨head, args, named⟩ := pred
  rfl

mutual

/-- The tokens of a term are read as the term. -/
theorem takes_term (lawful : host.Lawful) :
    ∀ (term : Term), term.Meets .lexical → term.Meets .plain → ∀ (fuel depth : Nat),
      2 * (term.tokens host).length ≤ fuel → depth + term.nesting ≤ maxParseDepth →
      Takes AnyKind (parseTerm host fuel) depth (term.tokens host) term
  | .var name, _, _, fuel, depth, enough, _ => by
    obtain ⟨less, rfl⟩ := Nat.exists_eq_add_one_of_ne_zero (Nat.ne_zero_of_lt enough)
    rw [parseTerm]
    exact takes_peek_bind (takes_discard_bind (by simp) (takes_pure _))
  | .ent entity, _, _, fuel, depth, enough, _ => by
    obtain ⟨less, rfl⟩ := Nat.exists_eq_add_one_of_ne_zero (Nat.ne_zero_of_lt enough)
    rw [parseTerm]
    exact takes_peek_bind (takes_discard_bind (by simp) (takes_pure _))
  | .lit literal, lexical, plain, fuel, depth, enough, _ => by
    obtain ⟨less, rfl⟩ := Nat.exists_eq_add_one_of_ne_zero (Nat.ne_zero_of_lt enough)
    exact takes_literal lawful lexical plain less depth
  | .compound pred, lexical, plain, fuel, depth, enough, shallow => by
    rw [Term.nesting] at shallow
    rw [Term.tokens, tokens_predicate] at enough ⊢
    rw [List.length_cons, List.length_append, List.length_singleton] at enough
    obtain ⟨less, rfl⟩ := Nat.exists_eq_add_one_of_ne_zero (n := fuel) (by omega)
    have body := takes_predicate lawful pred lexical plain less (depth + 1) (by omega) (by omega)
    rw [parseTerm]
    refine takes_peek_bind (Takes.withDepth ?_ (by omega))
    refine takes_discard_bind (by simp) (body.bindBefore rfl ?_)
    exact (takes_discard_expect _ (by simp)).bind (takes_pure _)
  | .list items, lexical, plain, fuel, depth, enough, shallow => by
    rw [Term.nesting] at shallow
    rw [Term.tokens] at enough ⊢
    rw [List.length_cons, List.length_append, List.length_singleton] at enough
    obtain ⟨less, rfl⟩ := Nat.exists_eq_add_one_of_ne_zero (n := fuel) (by omega)
    have body := takes_items lawful items lexical plain less (depth + 1) [] (by omega) (by omega)
    rw [parseTerm]
    refine takes_peek_bind (Takes.withDepth ?_ (by omega))
    refine takes_discard_bind (by simp) (body.bindBefore rfl ?_)
    exact (takes_discard_expect _ (by simp)).bind (takes_pure _)

theorem takes_predicate (lawful : host.Lawful) :
    ∀ (pred : Predicate), pred.Meets .lexical → pred.Meets .plain → ∀ (fuel depth : Nat),
      2 * (bodyTokens host pred).length ≤ fuel → depth + pred.nesting ≤ maxParseDepth →
      Takes (· = .rParen) (parsePredicateBodyInner host fuel) depth (bodyTokens host pred) pred
  | ⟨head, args, named⟩, ⟨isName, lexical, lexicalNamed⟩, ⟨_, plain, plainNamed⟩, fuel, depth,
      enough, shallow => by
    rw [Predicate.nesting] at shallow
    rw [bodyTokens] at enough ⊢
    rw [List.length_cons] at enough
    obtain ⟨less, rfl⟩ := Nat.exists_eq_add_one_of_ne_zero (n := fuel) (by omega)
    have arguments := takes_args lawful args lexical plain (Term.tokensNamed host named)
      ⟨head, args, named⟩ less depth ⟨head, [], []⟩
      (fun fuel enough => takes_named lawful named lexicalNamed plainNamed fuel depth
        ⟨head, args, []⟩ false enough (by omega)) (by dsimp only at enough; omega) (by omega)
    rw [parsePredicateBodyInner]
    refine takes_advance_bind (by simp) ?_
    cases head with
    | id id => exact isName.elim
    | name text =>
      rw [canonicalHead, String.ofList_toList]
      exact arguments

theorem takes_items (lawful : host.Lawful) :
    ∀ (items : List Term), Term.AllMeet .lexical items → Term.AllMeet .plain items →
      ∀ (fuel depth : Nat) (read : List Term),
      2 * (Term.tokensAll host items).length + 1 ≤ fuel →
      depth + Term.nestingAll items ≤ maxParseDepth →
      Takes (· = .rBracket) (parseItems host fuel read) depth (Term.tokensAll host items)
        (read ++ items)
  | [], _, _, fuel, depth, read, enough, _ => by
    obtain ⟨less, rfl⟩ := Nat.exists_eq_add_one_of_ne_zero (Nat.ne_zero_of_lt enough)
    rw [List.append_nil]
    exact takes_parseItems_nil less depth read
  | term :: rest, ⟨lexical, lexicalRest⟩, ⟨plain, plainRest⟩, fuel, depth, read, enough,
      shallow => by
    have width := length_tokens_pos host term
    rw [Term.nestingAll] at shallow
    rw [Term.tokensAll] at enough ⊢
    rw [List.length_append] at enough
    obtain ⟨less, rfl⟩ := Nat.exists_eq_add_one_of_ne_zero (n := fuel) (by omega)
    have others := takes_items lawful rest lexicalRest plainRest less depth (read ++ [term])
      (by omega) (by omega)
    rw [List.append_assoc, List.singleton_append] at others
    exact takes_parseItems_step
      (takes_term lawful term lexical plain less depth (by omega) (by omega)) others

theorem takes_args (lawful : host.Lawful) :
    ∀ (args : List Term), Term.AllMeet .lexical args → Term.AllMeet .plain args →
      ∀ (kinds : List TokenKind) (result : Predicate) (fuel depth : Nat) (pred : Predicate),
      (∀ fuel, 2 * kinds.length + 1 ≤ fuel → Takes (· = .rParen)
        (parseArguments host fuel { pred with args := pred.args ++ args } false) depth kinds
        result) →
      2 * (Term.tokensAll host args ++ kinds).length + 1 ≤ fuel →
      depth + Term.nestingAll args ≤ maxParseDepth →
      Takes (· = .rParen) (parseArguments host fuel pred false) depth
        (Term.tokensAll host args ++ kinds) result
  | [], _, _, kinds, result, fuel, depth, pred, goesOn, enough, _ => by
    have others := goesOn fuel enough
    obtain ⟨head, read, named⟩ := pred
    rw [List.append_nil] at others
    exact others
  | term :: rest, ⟨lexical, lexicalRest⟩, ⟨plain, plainRest⟩, kinds, result, fuel, depth, pred,
      goesOn, enough, shallow => by
    have width := length_tokens_pos host term
    rw [Term.nestingAll] at shallow
    rw [Term.tokensAll, List.append_assoc] at enough ⊢
    rw [List.length_append] at enough
    obtain ⟨less, rfl⟩ := Nat.exists_eq_add_one_of_ne_zero (n := fuel) (by omega)
    have others := takes_args lawful rest lexicalRest plainRest kinds result less depth
      { pred with args := pred.args ++ [term] }
      (by simpa only [List.append_assoc, List.singleton_append] using goesOn) (by omega) (by omega)
    exact takes_parseArguments_step
      (takes_term lawful term lexical plain less depth (by omega) (by omega)) others

theorem takes_named (lawful : host.Lawful) :
    ∀ (named : List (String × Term)), Term.AllMeetNamed .lexical named →
      Term.AllMeetNamed .plain named → ∀ (fuel depth : Nat) (pred : Predicate) (inNamed : Bool),
      2 * (Term.tokensNamed host named).length + 1 ≤ fuel →
      depth + Term.nestingNamed named ≤ maxParseDepth →
      Takes (· = .rParen) (parseArguments host fuel pred inNamed) depth
        (Term.tokensNamed host named) { pred with named := pred.named ++ named }
  | [], _, _, fuel, depth, pred, inNamed, enough, _ => by
    obtain ⟨less, rfl⟩ := Nat.exists_eq_add_one_of_ne_zero (Nat.ne_zero_of_lt enough)
    obtain ⟨head, args, read⟩ := pred
    rw [List.append_nil]
    exact takes_parseArguments_nil less depth ⟨head, args, read⟩ inNamed
  | (key, term) :: rest, ⟨_, lexical, lexicalRest⟩, ⟨_, plain, plainRest⟩, fuel, depth, pred,
      inNamed, enough, shallow => by
    rw [Term.nestingNamed] at shallow
    rw [Term.tokensNamed] at enough ⊢
    rw [List.length_cons, List.length_append] at enough
    obtain ⟨less, rfl⟩ := Nat.exists_eq_add_one_of_ne_zero (n := fuel) (by omega)
    have others := takes_named lawful rest lexicalRest plainRest less depth
      { pred with named := pred.named ++ [(key, term)] } true (by omega) (by omega)
    rw [List.append_assoc, List.singleton_append] at others
    rw [parseArguments]
    refine takes_peek_bind (takes_discard_bind (by simp) ?_)
    exact (takes_term lawful term lexical plain less depth (by omega) (by omega)).bind others

end

theorem takes_parsePredicateForm (lawful : host.Lawful) {pred : Predicate}
    (lexical : pred.Meets .lexical) (plain : pred.Meets .plain) {depth : Nat}
    (shallow : depth + 1 + pred.nesting ≤ maxParseDepth) :
    Takes AnyKind (parsePredicateForm host) depth (pred.tokens host) pred := by
  rw [tokens_predicate]
  refine Takes.withDepth ?_ (by omega)
  refine (takes_discard_expect .lParen (by simp)).cons ?_
  refine takes_get_bind fun parser enough => ?_
  have length : (bodyTokens host pred).length + 1 ≤ parser.tokens.length := by
    simpa [bodyTokens, Nat.add_assoc] using enough
  have body := takes_predicate lawful pred lexical plain parser.termFuel (depth + 1)
    (by rw [termFuel]; omega) shallow
  exact body.bindBefore rfl ((takes_discard_expect _ (by simp)).bind (takes_pure _))

end Terms

/-! ### The values of the fields -/

section Fields

variable {F : Type} {host : Host F} {depth : Nat}

theorem takes_parseText_str (text message : String) :
    Takes AnyKind (parseText message) depth [.str text] text :=
  takes_advance_bind (by simp) (takes_pure text)

theorem takes_parseDatetime [F32 F] (lawful : host.Lawful) (t : DateTime) :
    Takes AnyKind (parseDatetime host) depth [.str (host.toRfc3339 t)] t :=
  takes_advance_bind (by simp) (takes_orError (lawful.datetime_inverse t))

theorem takes_parseValidity [F32 F] (lawful : host.Lawful) (validity : Validity) :
    Takes AnyKind (parseValidity host) depth (validity.tokens host) validity := by
  cases validity with
  | forever => exact takes_peek_bind (takes_discard_bind (by simp) (takes_pure _))
  | window from_ until_ =>
    refine takes_peek_bind (takes_discard_bind (by simp) ?_)
    refine (takes_expectSymbol "window").cons ?_
    refine (takes_parseDatetime lawful from_).cons ?_
    have closes : Takes AnyKind
        (discard (expect host .rParen) >>= fun _ => pure (Validity.window from_ until_)) depth
        [.rParen] (.window from_ until_) :=
      (takes_discard_expect _ (by simp)).bind (takes_pure _)
    cases until_ with
    | none =>
      have isOpen : Takes (· = .rParen) (parseUntil host) depth [] none := by
        refine takes_peek_bind_nil ?_
        rintro kind rfl
        exact takes_pure _
      exact isOpen.nilBefore rfl closes
    | some until_ =>
      have isClosed : Takes AnyKind (parseUntil host) depth [.str (host.toRfc3339 until_)]
          (some until_) := by
        refine takes_peek_bind ?_
        rw [if_neg (by simp)]
        exact (takes_parseDatetime lawful until_).bind_pure
      exact isClosed.cons closes

theorem takes_parseU32 (n : UInt32) :
    Takes AnyKind parseU32 depth [.number (String.ofList (decimal n.toNat))] n := by
  have reads : parseUnsigned (2 ^ 32) (String.ofList (decimal n.toNat)).toList = .ok n.toNat := by
    rw [String.toList_ofList, parseUnsigned_decimal n.toNat_lt]
  have same : UInt32.ofNat n.toNat = n := UInt32.ofNat_toNat
  have takes : Takes AnyKind (orError (parseUnsigned (2 ^ 32) _) >>= fun n => pure (UInt32.ofNat n))
      depth [] (UInt32.ofNat n.toNat) := (takes_orError reads).bind_pure
  rw [same] at takes
  exact takes_advance_bind (by simp) takes

theorem takes_parseSpan (span : Span) : Takes AnyKind (parseSpan host) depth span.tokens span := by
  refine takes_peek_bind ?_
  rw [if_pos rfl]
  refine takes_discard_bind (by simp) ?_
  refine (takes_parseU32 span.start).cons ?_
  refine (takes_parseU32 span.stop).cons ?_
  exact (takes_discard_expect _ (by simp)).bind (takes_pure _)

/-- A document and a span of it. -/
theorem takes_document {α : Type} {next : DocId → Span → ParserM α} (doc : DocId) (span : Span)
    {kinds : List TokenKind} {result : α}
    (takes : Takes AnyKind (next doc span) depth kinds result) :
    Takes AnyKind (parseDocId >>= fun doc => parseSpan host >>= fun span => next doc span) depth
      (.str doc.asStr :: (span.tokens ++ kinds)) result := by
  have readsDoc : Takes AnyKind parseDocId depth [.str doc.asStr] doc :=
    (takes_parseText_str doc.asStr _).bind_pure
  exact readsDoc.cons ((takes_parseSpan span).bind takes)

theorem takes_parseModelRef (model : ModelRef) : Takes AnyKind (parseModelRef host) depth
    [.lParen, .symbol "model", .str model.name, .str model.version, .rParen] model := by
  refine takes_peek_bind (takes_discard_bind (by simp) ?_)
  refine (takes_expectSymbol "model").cons ?_
  refine (takes_parseText_str model.name _).cons ?_
  refine (takes_parseText_str model.version _).cons ?_
  exact (takes_discard_expect _ (by simp)).bind (takes_pure _)

/-- The fields of a provenance are read between its kind and its closing parenthesis. -/
theorem takes_parseProvenance_of {kind : String} {kinds : List TokenKind} {provenance : Provenance}
    (takes : Takes AnyKind (parseProvenanceOf host kind) depth kinds provenance) :
    Takes AnyKind (parseProvenance host) depth (.lParen :: .symbol kind :: (kinds ++ [.rParen]))
      provenance := by
  refine (takes_discard_expect .lParen (by simp)).cons ?_
  refine takes_advance_bind (by simp) (takes.bind ?_)
  exact (takes_discard_expect _ (by simp)).bind (takes_pure _)

theorem takes_parseProvenance (provenance : Provenance) :
    Takes AnyKind (parseProvenance host) depth provenance.tokens provenance := by
  cases provenance with
  | verbatim doc span =>
    have takes : Takes AnyKind (parseProvenanceOf host "verbatim") depth
        (.str doc.asStr :: (span.tokens ++ [])) (.verbatim doc span) := by
      rw [parseProvenanceOf, if_pos rfl]
      exact takes_document doc span (takes_pure _)
    exact takes_parseProvenance_of takes
  | summary doc span =>
    have takes : Takes AnyKind (parseProvenanceOf host "summary") depth
        (.str doc.asStr :: (span.tokens ++ [])) (.summary doc span) := by
      rw [parseProvenanceOf, if_neg (by decide), if_pos rfl]
      exact takes_document doc span (takes_pure _)
    exact takes_parseProvenance_of takes
  | extracted doc span model =>
    have takes : Takes AnyKind (parseProvenanceOf host "extracted") depth
        (.str doc.asStr :: (span.tokens ++
          [.lParen, .symbol "model", .str model.name, .str model.version, .rParen]))
        (.extracted doc span model) := by
      rw [parseProvenanceOf, if_neg (by decide), if_neg (by decide), if_pos rfl]
      exact takes_document doc span (takes_parseModelRef model).bind_pure
    have whole := takes_parseProvenance_of takes
    rw [List.cons_append, List.append_assoc] at whole
    exact whole
  | derived from_ rule =>
    have takes : Takes AnyKind (parseProvenanceOf host "derived") depth
        [.symbol from_.asStr, .str rule.asStr] (.derived from_ rule) := by
      rw [parseProvenanceOf, if_neg (by decide), if_neg (by decide), if_neg (by decide), if_pos rfl]
      refine takes_advance_bind (by simp) ?_
      have readsRule : Takes AnyKind parseRuleId depth [.str rule.asStr] rule :=
        (takes_parseText_str rule.asStr _).bind_pure
      exact readsRule.bind_pure
    exact takes_parseProvenance_of takes
  | asserted by_ =>
    have takes : Takes AnyKind (parseProvenanceOf host "asserted") depth [.str by_.asStr]
        (.asserted by_) := by
      rw [parseProvenanceOf, if_neg (by decide), if_neg (by decide), if_neg (by decide),
        if_neg (by decide), if_pos rfl]
      have readsBy : Takes AnyKind parsePrincipal depth [.str by_.asStr] by_ :=
        (takes_parseText_str by_.asStr _).bind_pure
      exact readsBy.bind_pure
    exact takes_parseProvenance_of takes

theorem takes_parseF32 [F32 F] (lawful : host.Lawful) {v : F} (inUnit : F32.inUnit v = true) :
    Takes AnyKind (parseF32 host) depth
      [.number (String.ofList (formatF32WithDecimal host v))] v := by
  refine takes_advance_bind (by simp) (takes_orError ?_)
  have reads := lawful.f32_inverse v inUnit
  simp only [formatF32WithDecimal]
  split_ifs with hasPoint
  · rw [String.ofList_toList, reads]
  · have text : String.ofList ((host.f32Display v).toList ++ ".0".toList) =
        host.f32Display v ++ ".0" := by
      rw [String.ofList_append, String.ofList_toList, String.ofList_toList]
    rw [text]
    exact lawful.f32_pointZero _ v (lawful.f32_plain v inUnit) hasPoint reads

theorem takes_parsePermissionTag {tag : PermissionTag} (isNamed : tag.IsNamed) :
    Takes AnyKind parsePermissionTag depth
      [.symbol (String.ofList (canonicalPermission tag))] tag := by
  have known : namedPermission (String.ofList (canonicalPermission tag)) = some tag := by
    rcases isNamed with rfl | rfl | rfl | rfl <;> decide
  refine takes_advance_bind (by simp) ?_
  simp only [known]
  exact takes_pure tag

theorem takes_parseIdListLoop (deps read : List NodeId) (fuel : Nat)
    (enough : deps.length + 1 ≤ fuel) :
    Takes (· = .rBracket) (parseIdListLoop fuel read) depth
      (deps.map fun dep => .symbol dep.asStr) (read ++ deps) := by
  induction deps generalizing read fuel with
  | nil =>
    obtain ⟨less, rfl⟩ := Nat.exists_eq_add_one_of_ne_zero (Nat.ne_zero_of_lt enough)
    refine takes_peek_bind_nil ?_
    rintro kind rfl
    rw [List.append_nil]
    exact takes_pure read
  | cons dep rest inductionHypothesis =>
    obtain ⟨less, rfl⟩ := Nat.exists_eq_add_one_of_ne_zero (Nat.ne_zero_of_lt enough)
    rw [List.length_cons] at enough
    have others := inductionHypothesis (read ++ [dep]) less (by omega)
    rw [List.append_assoc, List.singleton_append] at others
    exact takes_peek_bind (takes_advance_bind (by simp) others)

theorem takes_parseIdList (deps : List NodeId) :
    Takes AnyKind (parseIdList host) depth (depsTokens deps) deps := by
  refine takes_peek_bind ?_
  rw [if_pos rfl]
  refine takes_discard_bind (by simp) (takes_get_bind fun parser enough => ?_)
  rw [List.length_append, List.length_map, List.length_singleton] at enough
  have ids : Takes (· = .rBracket) (parseIdListLoop (parser.tokens.length + 1) []) depth
      (deps.map fun dep => .symbol dep.asStr) ([] ++ deps) :=
    takes_parseIdListLoop deps [] _ (by omega)
  exact ids.bindBefore rfl ((takes_discard_expect _ (by simp)).bind (takes_pure _))

end Fields

/-! ### Nodes -/

section Nodes

variable {F : Type} [F32 F] {host : Host F} {depth : Nat}

/-- Where the body of a node goes on, its next field is read. -/
theorem takes_parseFields_step {key : String} {kinds kinds' : List TokenKind}
    {fields fields' result : NodeFields F} {fuel : Nat}
    (takes : Takes AnyKind (parseField host fields key) depth kinds fields')
    (rest : Takes (· = .rParen) (parseFields host fuel fields') depth kinds' result) :
    Takes (· = .rParen) (parseFields host (fuel + 1) fields) depth
      (.keyword key :: (kinds ++ kinds')) result := by
  rw [parseFields]
  exact takes_peek_bind (takes_discard_bind (by simp) (takes.bind rest))

theorem takes_parseFields_cons {field : PrintedField} {others : List PrintedField}
    {fields fields' result : NodeFields F} {fuel : Nat}
    (takes : Takes AnyKind (parseField host fields field.key) depth field.kinds fields')
    (rest : Takes (· = .rParen) (parseFields host fuel fields') depth
      (others.flatMap PrintedField.tokens) result) :
    Takes (· = .rParen) (parseFields host (fuel + 1) fields) depth
      ((field :: others).flatMap PrintedField.tokens) result :=
  takes_parseFields_step takes rest

/-- The body of a node ends at its closing parenthesis. -/
theorem takes_parseFields_nil (fuel : Nat) (fields : NodeFields F) :
    Takes (· = .rParen) (parseFields host (fuel + 1) fields) depth [] fields := by
  rw [parseFields]
  refine takes_peek_bind_nil ?_
  rintro kind rfl
  exact takes_pure fields

theorem takes_noteField (node : Node F) (fields : NodeFields F) (noNote : fields.note = none)
    (fuel : Nat) :
    Takes (· = .rParen) (parseFields host (fuel + 2) fields) depth
      (node.noteField.flatMap PrintedField.tokens) { fields with note := node.note } := by
  unfold Node.noteField
  cases isNote : node.note with
  | none =>
    have same : { fields with note := none } = fields := by rw [← noNote]
    rw [same]
    exact takes_parseFields_nil (fuel + 1) fields
  | some note =>
    have takes : Takes AnyKind (parseField host fields "note") depth [.str note]
        { fields with note := some note } := by
      simp only [parseField, String.reduceEq, if_false, if_true]
      exact (takes_parseText_str note _).bind_pure
    exact takes_parseFields_step takes (takes_parseFields_nil fuel _)

theorem takes_depsField (node : Node F) (fields : NodeFields F) (noDeps : fields.deps = [])
    {kinds : List TokenKind} {result : NodeFields F} {fuel : Nat}
    (rest : ∀ fuel' ≥ fuel, Takes (· = .rParen)
      (parseFields host fuel' { fields with deps := node.deps }) depth kinds result) :
    Takes (· = .rParen) (parseFields host (fuel + 1) fields) depth
      (node.depsField.flatMap PrintedField.tokens ++ kinds) result := by
  unfold Node.depsField
  split_ifs with empty
  · have same : { fields with deps := node.deps } = fields := by
      rw [List.isEmpty_iff.mp empty, ← noDeps]
    have goesOn := rest (fuel + 1) (Nat.le_succ fuel)
    rw [same] at goesOn
    exact goesOn
  · have takes : Takes AnyKind (parseField host fields "deps") depth (depsTokens node.deps)
        { fields with deps := node.deps } := by
      simp only [parseField, String.reduceEq, if_false, if_true]
      exact (takes_parseIdList node.deps).bind_pure
    have step := takes_parseFields_step takes (rest fuel le_rfl)
    simpa [PrintedField.tokens] using step

/-- A score in the unit interval is read. -/
theorem takes_score (lawful : host.Lawful) {α : Type} {v : F} (inUnit : F32.inUnit v = true)
    {check : F → Except (CoreError F) α} {score : α} (checked : check v = .ok score)
    (set : α → NodeFields F) :
    Takes AnyKind (do
        let v ← parseF32 host
        let score ← orError ((check v).mapError (CoreError.display host))
        return set score) depth
      [.number (String.ofList (formatF32WithDecimal host v))] (set score) := by
  have reads : (check v).mapError (CoreError.display host) = .ok score := by
    rw [checked]
    rfl
  exact (takes_parseF32 lawful inUnit).bind (takes_orError reads).bind_pure

/-- The fields after the predicate are read as the fields of the node, and the tokens of a
provenance as that provenance. -/
theorem takes_otherFields (lawful : host.Lawful) {node : Node F} (lexical : node.Lexical)
    (read : Provenance) (pred : Option Predicate) {fuel : Nat} (enough : 7 < fuel) :
    Takes (· = .rParen) (parseFields host fuel { NodeFields.default with predicate := pred }) 1
      ((node.otherFields host read.tokens).flatMap PrintedField.tokens)
      ⟨pred, node.validity, read, node.confidence, node.authority, node.permissions, node.deps,
        node.note⟩ := by
  obtain ⟨less, rfl⟩ : ∃ less, fuel = less + 2 + 1 + 1 + 1 + 1 + 1 + 1 :=
    ⟨fuel - 8, by omega⟩
  have valid (fields : NodeFields F) : Takes AnyKind (parseField host fields "valid") 1
      (node.validity.tokens host) { fields with validity := node.validity } := by
    simp only [parseField, String.reduceEq, if_false, if_true]
    exact (takes_parseValidity lawful node.validity).bind_pure
  have src (fields : NodeFields F) : Takes AnyKind (parseField host fields "src") 1
      read.tokens { fields with provenance := read } := by
    simp only [parseField, String.reduceEq, if_false, if_true]
    exact (takes_parseProvenance read).bind_pure
  have conf (fields : NodeFields F) : Takes AnyKind (parseField host fields "conf") 1
      [.number (String.ofList (formatF32WithDecimal host node.confidence.value))]
      { fields with confidence := node.confidence } := by
    simp only [parseField, String.reduceEq, if_false, if_true]
    have checked : Confidence.new node.confidence.value = .ok node.confidence := by
      rw [Confidence.new, if_pos lexical.confidence]
    exact takes_score lawful lexical.confidence checked
      (fun confidence => { fields with confidence := confidence })
  have auth (fields : NodeFields F) : Takes AnyKind (parseField host fields "auth") 1
      [.number (String.ofList (formatF32WithDecimal host node.authority.value))]
      { fields with authority := node.authority } := by
    simp only [parseField, String.reduceEq, if_false, if_true]
    have checked : Authority.new node.authority.value = .ok node.authority := by
      rw [Authority.new, if_pos lexical.authority]
    exact takes_score lawful lexical.authority checked
      (fun authority => { fields with authority := authority })
  have perm (fields : NodeFields F) : Takes AnyKind (parseField host fields "perm") 1
      [.symbol (String.ofList (canonicalPermission node.permissions))]
      { fields with permissions := node.permissions } := by
    simp only [parseField, String.reduceEq, if_false, if_true]
    exact (takes_parsePermissionTag lexical.permissions).bind_pure
  rw [Node.otherFields]
  simp only [List.cons_append, List.nil_append]
  refine takes_parseFields_cons (valid _) (takes_parseFields_cons (src _) ?_)
  refine takes_parseFields_cons (conf _) (takes_parseFields_cons (auth _) ?_)
  refine takes_parseFields_cons (perm _) ?_
  rw [List.flatMap_append]
  refine takes_depsField node _ rfl fun fuel' enough' => ?_
  obtain ⟨more, rfl⟩ : ∃ more, fuel' = more + 2 := ⟨fuel' - 2, by omega⟩
  exact takes_noteField node _ rfl more

/-- The fields of a printed node are read as the fields of the node. -/
theorem takes_fields (lawful : host.Lawful) {node : Node F} (printable : node.Printable)
    {fuel : Nat} (enough : 8 < fuel) :
    Takes (· = .rParen) (parseFields host fuel .default) 1
      ((node.fields host).flatMap PrintedField.tokens)
      ⟨some node.predicate, node.validity, node.provenance, node.confidence, node.authority,
        node.permissions, node.deps, node.note⟩ := by
  obtain ⟨less, rfl⟩ : ∃ less, fuel = less + 1 := ⟨fuel - 1, by omega⟩
  have shallow : 1 + 1 + node.predicate.nesting ≤ maxParseDepth := by
    have := printable.nesting
    rw [maxNesting] at this
    rw [maxParseDepth]
    omega
  have pred : Takes AnyKind (parseField host .default "pred") 1
      (node.predicate.tokens host) { NodeFields.default with
        predicate := some node.predicate } := by
    simp only [parseField, if_true]
    exact (takes_parsePredicateForm lawful printable.predicate printable.plain.predicate
      shallow).bind_pure
  rw [fields_eq]
  exact takes_parseFields_cons pred
    (takes_otherFields lawful printable.toLexical node.provenance _ (by omega))

theorem takes_parseNode (lawful : host.Lawful) {node : Node F} (printable : node.Printable) :
    Takes AnyKind (parseNode host) 0 (node.tokens host) node := by
  have fields : ∀ fuel, 8 < fuel → Takes (· = .rParen) (parseFields host fuel .default) 1
      ((node.fields host).flatMap PrintedField.tokens) _ :=
    fun fuel enough => takes_fields lawful printable enough
  refine Takes.withDepth ?_ (by decide)
  refine (takes_discard_expect .lParen (by simp)).cons ?_
  refine (takes_expectSymbol "node").cons ?_
  refine takes_advance_bind (by simp) (takes_get_bind fun parser enough => ?_)
  have many : 8 ≤ parser.tokens.length := by
    refine le_trans ?_ enough
    simp [Node.fields, Node.fixedFields, PrintedField.tokens]
    omega
  refine (fields _ (by omega)).bindBefore rfl ((takes_discard_expect _ (by simp)).bind ?_)
  have same : (⟨⟨node.id.asStr⟩, node.predicate, node.validity, node.provenance, node.confidence,
      node.authority, node.permissions, node.deps, .active, node.note⟩ : Node F) = node := by
    rw [← printable.active]
  have made : Takes AnyKind (pure node) 1 [] node := takes_pure node
  rw [← same] at made ⊢
  exact made

end Nodes

end Parser

end Factum
