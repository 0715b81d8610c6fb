/-
This file says what the lexer reads from the printed text of a node that need not be
plain.

The printer puts an `@` before every entity, and texts of a provenance between quotes as
they are. An entity that was a bare symbol may have characters that the scanner of
entities does not take. The scanner stops at the first of them, and what is left is a
symbol of its own; where it stops at once, the text is not tokenized at all. A text of a
provenance is read with its escapes undone, as long as it has no quote that ends it. So
the text of a node is either not tokenized or read as tokens that are known.
-/

import Mathlib.Data.List.TakeWhile
import Factum.Parsed
import Factum.RoundTrip

namespace Factum

open Stateful Lexer

namespace Lexer

/-! ### Texts that are not tokenized -/

/-- The lexer fails at the next token. -/
def Fails (lexer : Lexer) : Prop :=
  ∃ c tail stop after, (skipped lexer).src = c :: tail ∧ c ≠ byte ';' ∧
    nextToken (skipped lexer) = .error stop after

/-- The lexer fails at a token after some that it reads. -/
def Stuck (lexer : Lexer) : Prop := ∃ kinds last, Scans lexer kinds last ∧ Fails last

theorem Scans.stuck {before between : Lexer} {kinds : List TokenKind}
    (scans : Scans before kinds between) (stuck : Stuck between) : Stuck before := by
  obtain ⟨kinds', last, scans', fails⟩ := stuck
  exact ⟨kinds ++ kinds', last, scans.trans scans', fails⟩

/-- A space before the first token changes nothing. -/
theorem Stuck.space {before : Lexer} {rest : List UInt8}
    (source : before.src = byte ' ' :: rest) (stuck : Stuck before.step) : Stuck before := by
  obtain ⟨kinds, last, scans, fails⟩ := stuck
  cases scans with
  | done =>
    have same : skipped before = skipped before.step := by
      rw [skipped, source]
      show skipSpaces rest (before.pos + 1) before.line (before.col + 1) =
        skipSpaces before.src.tail _ _ _
      rw [source]
      rfl
    refine ⟨[], before, .done before, ?_⟩
    rw [Fails, same]
    exact fails
  | token starts notComment read shorter after =>
    have scans := Scans.token starts notComment read shorter after
    exact ⟨_, last, scans.space source (by simp), fails⟩

/-- The next token is the one that is read, where no limit is reached before it. -/
theorem tokenizeLoop_token {limit fuel : Nat} {tokens read : List Token} {before after : Lexer}
    {c : UInt8} {tail : List UInt8} (starts : (skipped before).src = c :: tail)
    (notComment : c ≠ byte ';') (ran : tokenizeLoop limit fuel tokens before = .ok read after) :
    ∃ less, (nextToken >>= fun tok => tokenizeLoop limit less (tokens ++ [tok]))
      (skipped before) = .ok read after := by
  cases fuel with
  | zero => cases ran
  | succ less =>
    have skips : skipWsAndComments before = .ok () (skipped before) :=
      skipWsAndComments_run (by rw [starts]; exact fun same => notComment (Option.some.inj same))
    rw [tokenizeLoop, bind_ok skips, get_bind_run, starts, List.isEmpty_cons] at ran
    by_cases full : limit ≤ tokens.length
    · rw [if_pos full] at ran
      cases ran
    · rw [if_neg full] at ran
      exact ⟨less, ran⟩

/-- A text at which the lexer gets stuck is not tokenized. -/
theorem Stuck.not_tokenized {lexer : Lexer} (stuck : Stuck lexer) {limit : Nat} :
    ∀ (fuel : Nat) (tokens read : List Token) (after : Lexer),
      tokenizeLoop limit fuel tokens lexer ≠ .ok read after := by
  obtain ⟨kinds, last, scans, c, tail, stop, failed, starts, notComment, fails⟩ := stuck
  induction scans with
  | done =>
    intro fuel tokens read after ran
    obtain ⟨less, ran⟩ := tokenizeLoop_token starts notComment ran
    rw [bind_error fails] at ran
    cases ran
  | token starts' notComment' isToken _ _ inductionHypothesis =>
    intro fuel tokens read after ran
    obtain ⟨less, ran⟩ := tokenizeLoop_token starts' notComment' ran
    rw [bind_ok isToken] at ran
    exact inductionHypothesis starts fails less _ read after ran

/-- What is tokenized is the tokens that can be read to the end. -/
theorem tokenizeLoop_ok {limit : Nat} {before last : Lexer} {kinds : List TokenKind}
    (scans : Scans before kinds last) (ends : (skipped last).src = []) :
    ∀ (fuel : Nat) (tokens read : List Token) (after : Lexer),
      tokenizeLoop limit fuel tokens before = .ok read after →
      ∃ own eof, read = tokens ++ own ++ [eof] ∧ own.map (·.kind) = kinds ∧ eof.kind = .eof := by
  induction scans with
  | done lexer =>
    intro fuel tokens read after ran
    cases fuel with
    | zero => cases ran
    | succ less =>
      have skips : skipWsAndComments lexer = .ok () (skipped lexer) :=
        skipWsAndComments_run (by rw [ends]; exact fun same => by cases same)
      rw [tokenizeLoop, bind_ok skips, get_bind_run, ends] at ran
      cases ran
      exact ⟨[], (skipped lexer).token .eof, by rw [List.append_nil], rfl, rfl⟩
  | @token before next last tok kinds c tail starts notComment isToken _ _ inductionHypothesis =>
    intro fuel tokens read after ran
    obtain ⟨less, ran⟩ := tokenizeLoop_token starts notComment ran
    rw [bind_ok isToken] at ran
    obtain ⟨own, eof, rfl, areKinds, isEof⟩ := inductionHypothesis ends less _ read after ran
    refine ⟨tok :: own, eof, ?_, by rw [List.map_cons, areKinds], isEof⟩
    rw [List.append_assoc tokens, List.singleton_append]

/-! ### Texts that may be tokenized -/

/-- Where it is delimited, a text is read as tokens of these kinds, if the lexer does not get
stuck in it. -/
structure Tries (text : List Char) (kinds : List TokenKind) : Prop where
  reads : ∀ rest, Delimited rest → ∀ lexer : Lexer, lexer.At (text ++ rest) →
    Stuck lexer ∨ ∃ last, last.At rest ∧ Scans lexer kinds last

theorem Piece.tries {text : List Char} {kinds : List TokenKind} (piece : Piece text kinds) :
    Tries text kinds :=
  ⟨fun rest delimited lexer here => .inr (piece.reads rest delimited lexer here)⟩

theorem Tries.append {text text' : List Char} {kinds kinds' : List TokenKind}
    (first : Tries text kinds) (second : Tries text' kinds') (delimiting : Delimiting text') :
    Tries (text ++ text') (kinds ++ kinds') := by
  refine ⟨fun rest delimited lexer here => ?_⟩
  rw [List.append_assoc] at here
  rcases first.reads _ (delimiting rest delimited) lexer here with stuck |
    ⟨between, atSecond, scans⟩
  · exact .inl stuck
  · rcases second.reads rest delimited between atSecond with stuck | ⟨last, atRest, scans'⟩
    · exact .inl (scans.stuck stuck)
    · exact .inr ⟨last, atRest, scans.trans scans'⟩

theorem Tries.space {text : List Char} {kinds : List TokenKind} (tries : Tries text kinds)
    (nonempty : kinds ≠ []) : Tries (' ' :: text) kinds := by
  refine ⟨fun rest delimited lexer here => ?_⟩
  have source := At.src_ascii (c := ' ') here (by decide)
  rcases tries.reads rest delimited lexer.step (At.step (c := ' ') here (by decide)) with stuck |
    ⟨last, atRest, scans⟩
  · exact .inl (stuck.space source)
  · exact .inr ⟨last, atRest, scans.space source nonempty⟩

/-- A character that is a token of its own before a text. -/
theorem Tries.after {c : Char} {text : List Char} {kind : TokenKind} {kinds : List TokenKind}
    (tries : Tries text kinds) (reads : ReadsToken Anything [c] kind)
    (starts : startsToken c = true) : Tries (c :: text) (kind :: kinds) := by
  refine ⟨fun rest delimited lexer here => ?_⟩
  have here' : lexer.At ([c] ++ (text ++ rest)) := here
  obtain ⟨between, atText, scans⟩ := reads.scans starts trivial here'
  rcases tries.reads rest delimited between atText with stuck | ⟨last, atRest, scans'⟩
  · exact .inl (scans.stuck stuck)
  · exact .inr ⟨last, atRest, scans.trans scans'⟩

/-- A text between a character before it and one after it, each a token of its own. -/
theorem Tries.between {open_ close : Char} {text : List Char} {opening closing : TokenKind}
    {kinds : List TokenKind} (tries : Tries text kinds)
    (readsOpen : ReadsToken Anything [open_] opening) (startsOpen : startsToken open_ = true)
    (readsClose : ReadsToken Anything [close] closing) (startsClose : startsToken close = true)
    (delimiting : Delimiting [close]) :
    Tries (open_ :: (text ++ [close])) (opening :: (kinds ++ [closing])) :=
  (tries.append (readsClose.delimited.piece startsClose).tries delimiting).after readsOpen
    startsOpen

end Lexer

/-! ### Entities -/

/-- The tokens that the printed text of an entity is read as, unless the lexer gets stuck in
it. -/
def EntityId.readTokens (entity : EntityId) : List TokenKind :=
  let rest := entity.asStr.toList.dropWhile (acceptsChar isEntityByte)
  if rest.isEmpty then [.entity entity.asStr]
  else [.entity (String.ofList (entity.asStr.toList.takeWhile (acceptsChar isEntityByte))),
    .symbol (String.ofList rest)]

/-- A word of entity characters is read up to the first other character. -/
theorem readsToken_entity_ends {name : List Char} (nonempty : name ≠ [])
    (accepted : ∀ c ∈ name, acceptsChar isEntityByte c = true) :
    ReadsToken (Ends isEntityByte) ('@' :: name) (.entity (String.ofList name)) := by
  intro rest ends lexer here
  have isWord : IsWord isEntityByte (String.ofList name) :=
    ⟨by rwa [String.toList_ofList], by rwa [String.toList_ofList]⟩
  have word : lexer.At ('@' :: ((String.ofList name).toList ++ rest)) := by
    rwa [String.toList_ofList]
  rw [nextToken_of_src (At.src_ascii (c := '@') here (by decide))]
  exact lexSigil_run wide_isEntityByte isWord (by decide) ends .entity _ word

/-- Where no entity character is next, there is no entity. -/
theorem stuck_entity {rest : List Char} (ends : Ends isEntityByte rest) {lexer : Lexer}
    (here : lexer.At ('@' :: rest)) : Stuck lexer := by
  have source := here.src_ascii (by decide)
  have skips : skipped lexer = lexer := by
    rw [skipped, source, skipSpaces_of_plain _ _ _ (by decide), ← source]
  have empty : ∀ c ∈ ([] : List Char), acceptsChar isEntityByte c = true :=
    fun _ member => absurd member List.not_mem_nil
  obtain ⟨after, read, _⟩ := lexWord_run wide_isEntityByte empty ends (here.step (by decide))
  have fails : nextToken lexer = .error (lexer.error "entity name expected after @") after := by
    rw [nextToken_of_src source]
    show lexEntity lexer lexer = _
    rw [lexEntity, lexSigil, advance_bind_run, bind_ok read]
    rfl
  exact ⟨[], lexer, .done lexer, _, _, _, after, by rw [skips]; exact source, by decide,
    by rw [skips]; exact fails⟩

/-- What is left of a symbol after its entity characters is a symbol. -/
theorem isSymbol_rest {text : String} (isSymbol : IsSymbol text) {name rest : List Char} {d : Char}
    (split : text.toList = name ++ d :: rest) (stops : acceptsChar isEntityByte d = false) :
    IsSymbol (String.ofList (d :: rest)) := by
  have accepted : ∀ c ∈ (d :: rest), acceptsChar isSymbolByte c = true := fun c member =>
    isSymbol.accepted c (by rw [split]; exact List.mem_append_right _ member)
  refine ⟨⟨by rw [String.toList_ofList]; exact List.cons_ne_nil _ _,
    by rwa [String.toList_ofList]⟩, ?_⟩
  rw [String.toList_ofList]
  have notMinus : d ≠ '-' := by
    rintro rfl
    exact absurd stops (by decide)
  have notDigit : d.isDigit = false := by
    rw [← Bool.not_eq_true]
    intro digit
    have ascii := ascii_of_isDigit digit
    rw [acceptsChar, if_pos ascii, isEntityByte, isAsciiAlphanumeric, isAsciiDigit_byte ascii,
      digit] at stops
    simp at stops
  unfold startsLikeNumber
  split
  · rename_i same
    exact absurd (List.cons.inj same).1 notMinus
  · rename_i same
    rwa [← (List.cons.inj same).1]
  · rfl

theorem tries_entity {entity : EntityId}
    (spelled : IsWord isEntityByte entity.asStr ∨ IsSymbol entity.asStr) :
    Tries ('@' :: entity.asStr.toList) entity.readTokens := by
  have split := List.takeWhile_append_dropWhile (p := acceptsChar isEntityByte)
    (l := entity.asStr.toList)
  unfold EntityId.readTokens
  cases isRest : entity.asStr.toList.dropWhile (acceptsChar isEntityByte) with
  | nil =>
    have nonempty : entity.asStr.toList ≠ [] := by
      rcases spelled with isWord | isSymbol
      · exact isWord.nonempty
      · exact isSymbol.nonempty
    have isWord : IsWord isEntityByte entity.asStr :=
      ⟨nonempty, List.dropWhile_eq_nil_iff.mp isRest⟩
    exact (piece_entity isWord).tries
  | cons d rest =>
    have stops : acceptsChar isEntityByte d = false := by
      have first := List.head?_dropWhile_not (acceptsChar isEntityByte) entity.asStr.toList
      rw [isRest] at first
      simpa using first
    have isSymbol : IsSymbol entity.asStr := by
      refine spelled.resolve_left fun isWord => ?_
      have accepted := isWord.accepted d (by
        rw [← split, isRest]
        exact List.mem_append_right _ List.mem_cons_self)
      rw [accepted] at stops
      cases stops
    rw [isRest] at split
    have ends : ∀ following, Ends isEntityByte (d :: rest ++ following) := by
      intro following c others same
      rw [← (List.cons.inj same).1]
      exact stops
    refine ⟨fun following delimited lexer here => ?_⟩
    rw [List.cons_append, ← split, List.append_assoc] at here
    cases isName : entity.asStr.toList.takeWhile (acceptsChar isEntityByte) with
    | nil =>
      rw [isName] at here
      exact .inl (stuck_entity (ends following) here)
    | cons e name =>
      have accepted : ∀ c ∈ (e :: name), acceptsChar isEntityByte c = true := by
        rw [← isName]
        exact fun c member => List.mem_takeWhile_imp member
      rw [isName] at here
      obtain ⟨between, atRest, scans⟩ :=
        (readsToken_entity_ends (List.cons_ne_nil e name) accepted).scans rfl (ends following) here
      have piece := piece_symbol (isSymbol_rest isSymbol split.symm stops)
      rw [String.toList_ofList] at piece
      obtain ⟨last, atEnd, scans'⟩ := piece.reads following delimited between atRest
      exact .inr ⟨last, atEnd, scans.trans scans'⟩

/-! ### Terms and predicates -/

section Terms

variable {F : Type} (host : Host F)

mutual

/-- The tokens that the printed text of a term is read as. -/
def Term.readTokens : Term → List TokenKind
  | .var name => [.var name]
  | .ent entity => entity.readTokens
  | .lit literal => [literal.token host]
  | .compound pred => pred.readTokens
  | .list items => .lBracket :: (Term.readTokensAll items ++ [.rBracket])

/-- The tokens that the printed text of a predicate is read as. -/
def Predicate.readTokens : Predicate → List TokenKind
  | ⟨head, args, named⟩ =>
    .lParen :: (.symbol (String.ofList (canonicalHead head)) ::
      (Term.readTokensAll args ++ Term.readTokensNamed named) ++ [.rParen])

/-- The tokens that the printed texts of terms are read as. -/
def Term.readTokensAll : List Term → List TokenKind
  | [] => []
  | term :: rest => term.readTokens ++ Term.readTokensAll rest

/-- The tokens that the printed texts of named arguments are read as. -/
def Term.readTokensNamed : List (String × Term) → List TokenKind
  | [] => []
  | (key, term) :: rest => .keyword key :: (term.readTokens ++ Term.readTokensNamed rest)

end

theorem EntityId.readTokens_ne_nil (entity : EntityId) : entity.readTokens ≠ [] := by
  unfold EntityId.readTokens
  dsimp only
  split_ifs <;> exact List.cons_ne_nil _ _

theorem Term.readTokens_ne_nil (term : Term) : term.readTokens host ≠ [] := by
  cases term with
  | ent entity => exact entity.readTokens_ne_nil
  | compound pred =>
    obtain ⟨head, args, named⟩ := pred
    exact List.cons_ne_nil _ _
  | _ => exact List.cons_ne_nil _ _

variable {host} [F32 F]

mutual

theorem tries_term (lawful : host.Lawful) : ∀ term : Term, term.Meets .spelled →
    Tries (canonicalTerm host term) (term.readTokens host)
  | .var _, spelled => (piece_var spelled).tries
  | .ent _, spelled => tries_entity spelled
  | .lit _, spelled => (piece_literal lawful spelled).tries
  | .compound pred, spelled => tries_predicate lawful pred spelled
  | .list items, spelled =>
    (tries_items lawful items spelled).between readsToken_lBracket rfl readsToken_rBracket rfl
      (delimiting_bracket [])

theorem tries_predicate (lawful : host.Lawful) : ∀ pred : Predicate, pred.Meets .spelled →
    Tries (canonicalPredicateInner host pred) (pred.readTokens host)
  | ⟨head, args, named⟩, ⟨isName, spelled, spelledNamed⟩ => by
    have arguments := (tries_args lawful args spelled).append
      (tries_named lawful named spelledNamed) (delimiting_canonicalNamed named)
    have delimiting : Delimiting (canonicalArgs host args ++ canonicalNamed host named) := by
      intro rest delimited
      rw [List.append_assoc]
      exact delimiting_canonicalArgs args _ (delimiting_canonicalNamed named _ delimited)
    have whole := ((piece_head isName).tries.append arguments delimiting).between
      readsToken_lParen rfl readsToken_rParen rfl (delimiting_paren [])
    rw [canonicalPredicateInner, Predicate.readTokens]
    simpa only [List.append_assoc, List.cons_append, List.nil_append] using whole

theorem tries_items (lawful : host.Lawful) : ∀ items : List Term, Term.AllMeet .spelled items →
    Tries (canonicalItems host items) (Term.readTokensAll host items)
  | [], _ => piece_nil.tries
  | term :: rest, ⟨spelled, spelledRest⟩ =>
    (tries_term lawful term spelled).append (tries_args lawful rest spelledRest)
      (delimiting_canonicalArgs rest)

theorem tries_args (lawful : host.Lawful) : ∀ args : List Term, Term.AllMeet .spelled args →
    Tries (canonicalArgs host args) (Term.readTokensAll host args)
  | [], _ => piece_nil.tries
  | term :: rest, ⟨spelled, spelledRest⟩ =>
    ((tries_term lawful term spelled).space (term.readTokens_ne_nil host)).append
      (tries_args lawful rest spelledRest) (delimiting_canonicalArgs rest)

theorem tries_named (lawful : host.Lawful) : ∀ named : List (String × Term),
    Term.AllMeetNamed .spelled named →
    Tries (canonicalNamed host named) (Term.readTokensNamed host named)
  | [], _ => piece_nil.tries
  | (key, term) :: rest, ⟨isWord, spelled, spelledRest⟩ => by
    have value := ((tries_term lawful term spelled).space (term.readTokens_ne_nil host)).append
      (tries_named lawful rest spelledRest) (delimiting_canonicalNamed rest)
    have argument := ((piece_keyword isWord).tries.append value (delimiting_space _)).space
      (by simp)
    rw [canonicalNamed, Term.readTokensNamed]
    simpa only [List.append_assoc, List.cons_append, List.nil_append] using argument

end

/-! ### Nodes -/

/-- The tokens that the printed text of a node is read as, where its provenance is read as
another one. -/
def Node.readTokens (host : Host F) (node : Node F) (read : Provenance) : List TokenKind :=
  .lParen :: .symbol "node" :: .symbol node.id.asStr :: .keyword "pred" ::
    (node.predicate.readTokens host ++
      ((node.otherFields host read.tokens).flatMap PrintedField.tokens ++ [.rParen]))

/-- The text of a node is read as these tokens, unless the lexer gets stuck in it. -/
theorem tries_node (lawful : host.Lawful) {node : Node F} (parsed : node.Parsed)
    {read : Provenance} (stands : node.provenance.Stands read) :
    Tries (canonicalNode host node) (node.readTokens host read) := by
  have others := piece_fields _ (reads_otherFields lawful parsed.toLexical stands)
  have nonempty : node.predicate.readTokens host ≠ [] := Term.readTokens_ne_nil host
    (.compound node.predicate)
  have predicate := ((tries_predicate lawful _
    (parsed.parsed.imp Asks.parsed_implies_spelled)).space nonempty).append others.tries
    (delimiting_fields _)
  have key := ((piece_keyword (isWord_key "pred" (by simp))).tries.append predicate
    (delimiting_space _)).space (by simp)
  have named := ((piece_symbol parsed.id).tries.append key (delimiting_space _)).space (by simp)
  have word : Piece "node".toList [.symbol "node"] := piece_symbol (by decide)
  have whole := (word.tries.append named (delimiting_space _)).between readsToken_lParen rfl
    readsToken_rParen rfl (delimiting_paren [])
  rw [canonicalNode_eq, fields_eq]
  have isText : (node.otherFields host node.provenance.tokens).flatMap PrintedField.fieldText =
      (node.otherFields host read.tokens).flatMap PrintedField.fieldText := rfl
  rw [List.flatMap_cons, isText, Node.readTokens]
  simpa [PrintedField.fieldText] using whole

/-- The tokens of a text that may be tokenized, where it is. -/
theorem Parser.tokensOf_of_tries {text : List Char} {kinds : List TokenKind}
    (tries : Tries text kinds) {tokens : List Token}
    (read : Parser.tokensOf (String.ofList text) = .ok tokens) :
    ∃ own eof, tokens = own ++ [eof] ∧ own.map (·.kind) = kinds ∧ eof.kind = .eof := by
  have here := new_at text
  unfold Parser.tokensOf tokenize at read
  cases ran : tokenizeLoop maxTokens ((Lexer.new (String.ofList text)).src.length + 1) []
      (Lexer.new (String.ofList text)) with
  | error stop after =>
    simp only [ran] at read
    cases stop <;> cases read
  | ok tokens' after =>
    simp only [ran] at read
    split_ifs at read
    cases read
    rcases tries.reads [] delimited_nil _ (by rwa [List.append_nil]) with stuck |
      ⟨last, atEnd, scans⟩
    · exact absurd ran (stuck.not_tokenized _ _ _ _)
    · have empty : last.src = [] := atEnd
      exact tokenizeLoop_ok scans (by rw [skipped, empty]; rfl) _ [] _ _ ran

end Terms

end Factum
