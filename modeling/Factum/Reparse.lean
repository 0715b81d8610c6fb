/-
This file says which parsed nodes are read back from their canonical text.

A plain node is. Where every text of a provenance ends at its closing quote, no other node
is: what the text is read as is known token by token, the predicate that is read has the
words of what is read, and these are the words of the node only if it is plain.
-/

import Factum.Spent

namespace Factum

open Stateful Lexer

/-! ### Texts between quotes -/

/-- Every text of the provenance, between quotes as it is, ends at its closing quote. -/
def Provenance.Closed (provenance : Provenance) : Prop := ∃ read, provenance.Stands read

/-- The body of a string is longer than its text, unless it has no escapes. -/
theorem length_of_stringBody {body text : List Char} (stands : StringBody body text) :
    text.length ≤ body.length ∧
      (body.length ≤ text.length → ∀ c ∈ body, c ≠ '"' ∧ c ≠ '\\') := by
  induction stands with
  | nil => exact ⟨le_rfl, fun _ c member => absurd member List.not_mem_nil⟩
  | plain notQuote notBackslash _ inductionHypothesis =>
    obtain ⟨least, plain⟩ := inductionHypothesis
    refine ⟨Nat.succ_le_succ least, fun most c member => ?_⟩
    rcases List.mem_cons.mp member with rfl | inBody
    · exact ⟨notQuote, notBackslash⟩
    · exact plain (Nat.le_of_succ_le_succ most) c inBody
  | escaped _ _ inductionHypothesis =>
    obtain ⟨least, _⟩ := inductionHypothesis
    simp only [List.length_cons]
    exact ⟨by omega, fun most => absurd most (by omega)⟩

theorem plain_of_textStands {text : String} (stands : TextStands text text) : IsPlainText text :=
  (length_of_stringBody stands).2 le_rfl

/-- A provenance whose text is read as the provenance is plain. -/
theorem Provenance.plain_of_stands {provenance : Provenance}
    (stands : provenance.Stands provenance) : provenance.Plain := by
  cases stands with
  | verbatim _ doc => exact plain_of_textStands doc
  | summary _ doc => exact plain_of_textStands doc
  | extracted _ doc name version =>
    exact ⟨plain_of_textStands doc, plain_of_textStands name, plain_of_textStands version⟩
  | derived _ rule => exact plain_of_textStands rule
  | asserted by_ => exact plain_of_textStands by_

namespace Parser

variable {F : Type} [F32 F] {host : Host F}

/-! ### What is read back -/

/-- The nodes that were read first are the first ones of the result. -/
theorem prefix_of_parseTop : ∀ (fuel : Nat) (nodes : List (Node F)) {result : List (Node F)}
    {before after : Parser}, parseTop host fuel nodes before = .ok result after →
      nodes <+: result := by
  intro fuel
  induction fuel with
  | zero =>
    intro nodes result before after ran
    cases ran
  | succ fuel inductionHypothesis =>
    intro nodes result before after ran
    rw [parseTop] at ran
    obtain ⟨kind, between, _, ran⟩ := bind_eq_ok.mp ran
    have skips : ∀ {first : ParserM Unit} {state : Parser},
        (first >>= fun _ => parseTop host fuel nodes) state = .ok result after →
          nodes <+: result := by
      intro first state ran
      obtain ⟨_, _, _, ran⟩ := bind_eq_ok.mp ran
      exact inductionHypothesis nodes ran
    cases kind with
    | eof =>
      cases ran
      exact List.prefix_refl _
    | lParen =>
      obtain ⟨second, _, _, ran⟩ := bind_eq_ok.mp ran
      split_ifs at ran
      · obtain ⟨node, _, _, ran⟩ := bind_eq_ok.mp ran
        exact (List.prefix_append _ _).trans (inductionHypothesis _ ran)
      · exact skips ran
    | _ => exact skips ran

/-- The body of a printed node, from its first keyword on, is read as fields with a predicate
that has as many words as its tokens, and with the provenance that its tokens say. -/
theorem parseFields_printed (lawful : host.Lawful) {node : Node F} (lexical : node.Lexical)
    (read : Provenance) {before after : Parser} (lexed : Lexed 1 before)
    {last : TokenKind} (isKinds : before.kinds = .keyword "pred" ::
      (node.predicate.readTokens host ++
        ((node.otherFields host read.tokens).flatMap PrintedField.tokens ++ [.rParen, last])))
    {fuel : Nat} (enough : 8 < fuel) {fields : NodeFields F}
    (ran : parseFields host fuel .default before = .ok fields after) :
    ∃ pred, weigh (node.predicate.readTokens host) = pred.words ∧
      fields.predicate = some pred ∧ fields.provenance = read := by
  obtain ⟨less, rfl⟩ : ∃ less, fuel = less + 1 := ⟨fuel - 1, by omega⟩
  obtain ⟨tokens, depth⟩ := before
  obtain rfl : depth = 1 := lexed.depth
  obtain ⟨key, others, rfl, isKey, areOthers⟩ := List.map_eq_cons_iff.mp isKinds
  -- the keyword, and the predicate after it
  have ran : (discard advance >>= fun _ => parseField host .default "pred" >>=
      parseFields host less) ⟨key :: others, 1⟩ = .ok fields after := by
    rw [parseFields] at ran
    have peeked : peekKind ⟨key :: others, 1⟩ = .ok key.kind ⟨key :: others, 1⟩ := rfl
    rw [bind_ok peeked, isKey] at ran
    exact ran
  rw [discard_bind, bind_ok (advance_run (by rw [isKey]; simp) others 1)] at ran
  have isPred : parseField host .default "pred" = (parsePredicateForm host >>= fun pred =>
      pure { (NodeFields.default : NodeFields F) with predicate := some pred }) := by
    simp only [parseField, if_true]
  rw [isPred, bind_assoc] at ran
  obtain ⟨pred, between, ranPred, ran⟩ := bind_eq_ok.mp ran
  obtain ⟨areRest, words⟩ := parsePredicateForm_printed host ranPred areOthers
  have lexed' : Lexed 1 ⟨others, 1⟩ :=
    ⟨rfl, fun tok member => lexed.tokens tok (List.mem_cons_of_mem _ member)⟩
  have deep : between.depth = 1 := (yields_parsePredicateForm host _ _ _ lexed' ranPred).1.depth
  -- the fields after the predicate
  obtain ⟨tokens, depth⟩ := between
  obtain rfl : depth = 1 := deep
  obtain ⟨own, closing, rfl, areOwn, areClosing⟩ := List.map_eq_append_iff.mp areRest
  obtain ⟨paren, ending, rfl, isParen, _⟩ := List.map_eq_cons_iff.mp areClosing
  have fuel : 7 < less := by omega
  have rest := (takes_otherFields lawful lexical read (some pred) fuel).run own paren ending
    areOwn isParen
  rw [pure_bind_run, rest] at ran
  cases ran
  exact ⟨pred, words, rfl, rfl⟩

/-- Where the node is read back from its text, its predicate has as many words as the tokens of
the text, and its provenance is what the text stands for. -/
theorem parseNode_printed (lawful : host.Lawful) {node printed : Node F} (parsed : printed.Parsed)
    (read : Provenance) {before after : Parser} (lexed : Lexed 0 before) {last : TokenKind}
    (isKinds : before.kinds = printed.readTokens host read ++ [last])
    (ran : parseNode host before = .ok node after) :
    weigh (printed.predicate.readTokens host) = node.predicate.words ∧ node.provenance = read := by
  obtain ⟨tokens, depth⟩ := before
  obtain rfl : depth = 0 := lexed.depth
  obtain ⟨first, _, rfl, isFirst, areOthers⟩ := List.map_eq_cons_iff.mp isKinds
  obtain ⟨second, _, rfl, isSecond, areOthers⟩ := List.map_eq_cons_iff.mp areOthers
  obtain ⟨third, others, rfl, isThird, areOthers⟩ := List.map_eq_cons_iff.mp areOthers
  obtain ⟨_, inner, ranInner, -⟩ := withDepth_ok ran
  have opening : discard (expect host .lParen) ⟨first :: second :: third :: others, 1⟩ =
      .ok () ⟨second :: third :: others, 1⟩ :=
    (takes_discard_expect .lParen (by simp)).run [first] second (third :: others)
      (by simpa using isFirst) trivial
  have word : expectSymbol "node" ⟨second :: third :: others, 1⟩ = .ok () ⟨third :: others, 1⟩ :=
    (takes_expectSymbol "node").run [second] third others (by simpa using isSecond) trivial
  have named := advance_run (by rw [isThird]; simp) others 1
  have ranFields := (bind_ok opening).symm.trans ranInner
  have ranFields := (bind_ok word).symm.trans ranFields
  have ranFields := (bind_ok named).symm.trans ranFields
  rw [isThird] at ranFields
  obtain ⟨fields, between, ranFields, ranRest⟩ := bind_eq_ok.mp
    ((Stateful.get_bind_run _ _).symm.trans ranFields)
  have inside : Lexed 1 ⟨others, 1⟩ := ⟨rfl, fun tok member => lexed.tokens tok
    (List.mem_cons_of_mem _ (List.mem_cons_of_mem _ (List.mem_cons_of_mem _ member)))⟩
  have many : 8 < others.length + 1 := by
    have length := congrArg List.length areOthers
    simp [Node.otherFields, PrintedField.tokens] at length
    omega
  have areKinds : kinds ⟨others, 1⟩ = .keyword "pred" :: (printed.predicate.readTokens host ++
      ((printed.otherFields host read.tokens).flatMap PrintedField.tokens ++ [.rParen, last])) := by
    simpa [kinds] using areOthers
  obtain ⟨pred, words, isPredicate, isProvenance⟩ := parseFields_printed lawful parsed.toLexical
    read inside areKinds many ranFields
  obtain ⟨_, _, _, ranRest⟩ := bind_eq_ok.mp ranRest
  rw [isPredicate] at ranRest
  cases ranRest
  exact ⟨words, isProvenance⟩

/-- Where every text of the provenance ends at its closing quote, only a plain node is read
back. -/
theorem plain_of_parse_canonical (lawful : host.Lawful) {node : Node F} (parsed : node.Parsed)
    (closed : node.provenance.Closed)
    (back : parse host (canonical host node) = .ok [node]) : node.Plain := by
  obtain ⟨read, stands⟩ := closed
  unfold parse at back
  cases isTokens : tokensOf (canonical host node) with
  | error stop =>
    rw [isTokens] at back
    cases back
  | ok tokens =>
    rw [isTokens] at back
    have back : answer (parseTop host (tokens.length + 1) []) ⟨tokens, 0⟩ = .ok [node] := back
    have lexed : Lexed 0 ⟨tokens, 0⟩ := ⟨rfl, lexed_tokensOf isTokens⟩
    obtain ⟨own, eof, rfl, areKinds, isEof⟩ :=
      tokensOf_of_tries (tries_node lawful parsed stands) isTokens
    have isKinds : kinds ⟨own ++ [eof], 0⟩ = node.readTokens host read ++ [.eof] := by
      rw [kinds, List.map_append, areKinds, List.map_cons, isEof, List.map_nil]
    cases ran : parseTop host ((own ++ [eof]).length + 1) [] ⟨own ++ [eof], 0⟩ with
    | error stop after =>
      rw [answer_error ran] at back
      cases back
    | ok nodes after =>
      rw [answer_ok ran] at back
      cases back
      obtain ⟨first, _, rfl, isFirst, areOthers⟩ := List.map_eq_cons_iff.mp areKinds
      obtain ⟨second, others, rfl, isSecond, _⟩ := List.map_eq_cons_iff.mp areOthers
      have peeked : peekKind ⟨first :: second :: others ++ [eof], 0⟩ =
        .ok first.kind ⟨first :: second :: others ++ [eof], 0⟩ := rfl
      have peekedAt : peekKindAt 1 ⟨first :: second :: others ++ [eof], 0⟩ =
        .ok (some second.kind) ⟨first :: second :: others ++ [eof], 0⟩ := rfl
      rw [parseTop, bind_ok peeked, isFirst] at ran
      have ran := (bind_ok peekedAt).symm.trans ran
      rw [isSecond, if_pos rfl] at ran
      obtain ⟨node', between, ranNode, ranRest⟩ := bind_eq_ok.mp ran
      obtain rfl : node' = node := by
        obtain ⟨more, same⟩ := prefix_of_parseTop _ _ ranRest
        exact (List.cons.inj same).1
      obtain ⟨words, isProvenance⟩ :=
        parseNode_printed lawful parsed read lexed isKinds ranNode
      rw [← isProvenance] at stands
      exact ⟨(weigh_predicate host _ parsed.parsed).2 words.le, Provenance.plain_of_stands stands⟩

/-- A node of a parsed text is read back from its canonical text if it is plain, and only then
where every text of its provenance ends at its closing quote. -/
theorem parse_canonical_of_parse (lawful : host.Lawful) {src : String} {nodes : List (Node F)}
    (parsed : parse host src = .ok nodes) {node : Node F} (member : node ∈ nodes)
    (few : ∀ count, tokenCount (canonical host node) = some count → count < maxTokens) :
    (node.Plain → parse host (canonical host node) = .ok [node]) ∧
      (node.provenance.Closed → parse host (canonical host node) = .ok [node] → node.Plain) := by
  have isParsed := parsed_of_parse lawful parsed node member
  constructor
  · intro plain
    exact parse_canonical lawful { isParsed.toLexical with plain := plain } few
  · exact plain_of_parse_canonical lawful isParsed

end Parser

namespace Tenths

/-- A node about one entity. -/
def about (entity : String) : Node Tenths := .new "a" ⟨.name "p", [.ent ⟨entity⟩], []⟩

/-- A bare symbol is an entity. It is printed with an `@` before it and read back as two
arguments. -/
theorem about_not_reparsed :
    Parser.parse host "(node a :pred (p x/y))" = .ok [about "x/y"] ∧
    (∀ count, tokenCount (canonical host (about "x/y")) = some count → count < maxTokens) ∧
    Parser.parse host (canonical host (about "x/y")) =
      .ok [.new "a" ⟨.name "p", [.ent ⟨"x"⟩, .ent ⟨"/y"⟩], []⟩] ∧
    Parser.parse host (canonical host (about "x/y")) ≠ .ok [about "x/y"] := by
  have counted : tokenCount (canonical host (about "x/y")) = some 23 := by decide +kernel
  refine ⟨by decide +kernel, fun count isCount => ?_, by decide +kernel, by decide +kernel⟩
  rw [counted] at isCount
  rw [← Option.some.inj isCount]
  decide

/-- A word is read back. -/
theorem about_reparsed :
    Parser.parse host (canonical host (about "x")) = .ok [about "x"] := by
  have counted : tokenCount (canonical host (about "x")) = some 22 := by decide +kernel
  have read : Parser.parse host "(node a :pred (p x))" = .ok [about "x"] := by decide +kernel
  refine (Parser.parse_canonical_of_parse host_lawful read List.mem_cons_self ?_).1 ?_
  · intro count isCount
    rw [counted] at isCount
    rw [← Option.some.inj isCount]
    decide
  · have isWord : IsWord isEntityByte "x" := by decide
    have isText : IsPlainText "system" := by decide
    exact ⟨⟨trivial, ⟨isWord, trivial⟩, trivial⟩, isText⟩

end Tenths

end Factum
