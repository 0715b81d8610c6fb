/-
This file proves that the lexer reads the text of a node as the tokens of the node.

Every part of a printed text is a piece: where it is delimited it is read as its
tokens. Parts that follow each other are pieces again, and so the whole text is one.
-/

import Factum.Printable

namespace Factum

open Lexer

/-! ### Words, numbers and quoted texts -/

theorem piece_var {name : String} (isWord : IsWord isNameByte name) :
    Piece ('?' :: name.toList) [.var name] :=
  (readsToken_var isWord).piece rfl

theorem piece_keyword {name : String} (isWord : IsWord isNameByte name) :
    Piece (':' :: name.toList) [.keyword name] :=
  (readsToken_keyword isWord).piece rfl

theorem piece_entity {name : String} (isWord : IsWord isEntityByte name) :
    Piece ('@' :: name.toList) [.entity name] :=
  (readsToken_entity isWord).piece rfl

/-- A character that is accepted in a symbol can start a token. -/
theorem startsToken_of_symbol {c : Char} (accepted : acceptsChar isSymbolByte c = true) :
    startsToken c = true := by
  have different : ∀ d : Char, acceptsChar isSymbolByte d = false → c ≠ d := by
    rintro d rejected rfl
    rw [accepted] at rejected
    cases rejected
  simp only [startsToken, Bool.and_eq_true, bne_iff_ne]
  exact ⟨⟨⟨⟨different ' ' rfl, different '\t' rfl⟩, different '\r' rfl⟩, different '\n' rfl⟩,
    different ';' rfl⟩

theorem piece_symbol {text : String} (isSymbol : IsSymbol text) :
    Piece text.toList [.symbol text] := by
  have reads := readsToken_symbol isSymbol
  obtain ⟨c, word, isText⟩ := List.exists_cons_of_ne_nil isSymbol.nonempty
  have starts := startsToken_of_symbol
    (isSymbol.accepted c (by rw [isText]; exact List.mem_cons_self))
  rw [isText] at reads ⊢
  exact reads.piece starts

theorem startsToken_of_isDigit {c : Char} (digit : c.isDigit = true) : startsToken c = true := by
  have different : ∀ d : Char, d.isDigit = false → c ≠ d := by
    rintro d notDigit rfl
    rw [digit] at notDigit
    cases notDigit
  simp only [startsToken, Bool.and_eq_true, bne_iff_ne]
  exact ⟨⟨⟨⟨different ' ' rfl, different '\t' rfl⟩, different '\r' rfl⟩, different '\n' rfl⟩,
    different ';' rfl⟩

theorem piece_number {sign whole fraction : List Char} (signed : sign = [] ∨ sign = ['-'])
    (nonempty : whole ≠ []) (wholeDigits : whole.all Char.isDigit = true)
    (fractionDigits : fraction.all Char.isDigit = true) :
    Piece (sign ++ whole ++ pointed fraction)
      [.number (String.ofList (sign ++ whole ++ pointed fraction))] := by
  have reads := readsToken_number signed nonempty wholeDigits fractionDigits
  rcases signed with rfl | rfl
  · obtain ⟨d, digits, rfl⟩ := List.exists_cons_of_ne_nil nonempty
    exact reads.piece (startsToken_of_isDigit
      (List.all_eq_true.mp wholeDigits d List.mem_cons_self))
  · exact reads.piece rfl

theorem piece_decimal (n : Nat) : Piece (decimal n) [.number (String.ofList (decimal n))] := by
  have piece : Piece ([] ++ decimal n ++ pointed [])
      [.number (String.ofList ([] ++ decimal n ++ pointed []))] :=
    piece_number (.inl rfl) Nat.toDigits_ne_nil (all_isDigit_toDigits n) rfl
  rwa [List.nil_append, pointed_nil, List.append_nil] at piece

theorem stringBody_escapeChar (c : Char) : StringBody (escapeChar c) [c] := by
  unfold escapeChar
  split_ifs with isBackslash isQuote isNewline isTab isReturn
  · rw [isBackslash]
    exact .escaped (c := '\\') (by decide) .nil
  · rw [isQuote]
    exact .escaped (c := '"') (by decide) .nil
  · rw [isNewline]
    exact .escaped (c := 'n') (by decide) .nil
  · rw [isTab]
    exact .escaped (c := 't') (by decide) .nil
  · rw [isReturn]
    exact .escaped (c := 'r') (by decide) .nil
  · exact .plain isQuote isBackslash .nil

theorem stringBody_escape (text : List Char) : StringBody (escape text) text := by
  induction text with
  | nil => exact .nil
  | cons c rest inductionHypothesis => exact (stringBody_escapeChar c).append inductionHypothesis

theorem piece_quoted_escape (text : String) : Piece (quoted (escape text.toList)) [.str text] := by
  have reads := readsToken_str (stringBody_escape text.toList)
  rw [String.ofList_toList] at reads
  exact reads.delimited.piece rfl

/-- Whether a text between quotes, as it is, stands for another one. -/
def TextStands (text read : String) : Prop := StringBody text.toList read.toList

theorem textStands_self {text : String} (plain : IsPlainText text) : TextStands text text :=
  stringBody_self plain

theorem TextStands.piece {text read : String} (stands : TextStands text read) :
    Piece (quoted text.toList) [.str read] := by
  have reads := readsToken_str stands
  rw [String.ofList_toList] at reads
  exact reads.delimited.piece rfl

theorem plain_numeral {c : Char} (numeral : isNumeralChar c = true) :
    c.toNat < 128 ∧ c ≠ ')' := by
  simp only [isNumeralChar, Bool.or_eq_true, beq_iff_eq] at numeral
  rcases numeral with ((digit | rfl) | rfl) | rfl
  · exact ⟨ascii_of_isDigit digit, by rintro rfl; cases digit⟩
  all_goals decide

/-! ### Opening and closing -/

theorem Lexer.Piece.lParen {text : List Char} {kinds : List TokenKind} (piece : Piece text kinds) :
    Piece ('(' :: text) (.lParen :: kinds) :=
  piece.after readsToken_lParen rfl

theorem Lexer.Piece.lBracket {text : List Char} {kinds : List TokenKind}
    (piece : Piece text kinds) :
    Piece ('[' :: text) (.lBracket :: kinds) :=
  piece.after readsToken_lBracket rfl

theorem Lexer.Piece.rParen {text : List Char} {kinds : List TokenKind} (piece : Piece text kinds) :
    Piece (text ++ [')']) (kinds ++ [.rParen]) :=
  piece.append (readsToken_rParen.delimited.piece rfl) (delimiting_paren [])

theorem Lexer.Piece.rBracket {text : List Char} {kinds : List TokenKind}
    (piece : Piece text kinds) :
    Piece (text ++ [']']) (kinds ++ [.rBracket]) :=
  piece.append (readsToken_rBracket.delimited.piece rfl) (delimiting_bracket [])

/-- Two pieces with a space between them. -/
theorem Lexer.Piece.spaced {text text' : List Char} {kinds kinds' : List TokenKind}
    (first : Piece text kinds) (second : Piece text' kinds') (nonempty : kinds' ≠ []) :
    Piece (text ++ ' ' :: text') (kinds ++ kinds') :=
  first.append (second.space nonempty) (delimiting_space text')

/-! ### Literals and terms -/

theorem piece_head {head : PredicateHead} (isName : head.IsName) :
    Piece (canonicalHead head) [.symbol (String.ofList (canonicalHead head))] := by
  cases head with
  | id id => exact isName.elim
  | name text =>
    rw [canonicalHead, String.ofList_toList]
    exact piece_symbol isName

section Printing

variable {F : Type} {host : Host F}

theorem Term.tokens_ne_nil (term : Term) : term.tokens host ≠ [] := by
  cases term with
  | compound pred =>
    obtain ⟨head, args, named⟩ := pred
    exact List.cons_ne_nil _ _
  | _ => exact List.cons_ne_nil _ _

theorem delimiting_canonicalArgs (args : List Term) : Delimiting (canonicalArgs host args) := by
  cases args with
  | nil => exact delimiting_nil
  | cons term rest => exact delimiting_space _

theorem delimiting_canonicalNamed (named : List (String × Term)) :
    Delimiting (canonicalNamed host named) := by
  cases named with
  | nil => exact delimiting_nil
  | cons argument rest => exact delimiting_space _

variable [F32 F]

theorem piece_literal (lawful : host.Lawful) {literal : Literal} (closed : literal.Closed) :
    Piece (canonicalLiteral host literal) [literal.token host] := by
  cases literal with
  | dec mantissa scale =>
    obtain ⟨whole, fraction, shape, nonempty, wholeDigits, fractionDigits, _⟩ :=
      decToString_eq mantissa scale
    have signed : signOf mantissa.val = [] ∨ signOf mantissa.val = ['-'] := by
      unfold signOf
      split_ifs
      · exact .inr rfl
      · exact .inl rfl
    have piece := piece_number signed nonempty wholeDigits fractionDigits
    show Piece (decToString mantissa scale).toList [.number (decToString mantissa scale)]
    rw [shape, String.toList_ofList]
    exact piece
  | str text => exact piece_quoted_escape text
  | date d =>
    have plain : ∀ c ∈ (host.dateFormat d).toList, c.toNat < 128 ∧ c ≠ ')' :=
      fun c member => plain_numeral (lawful.date_numeral d c member)
    have reads := readsToken_date plain
    rw [String.ofList_toList] at reads
    show Piece ("#date(".toList ++ (host.dateFormat d).toList ++ [')']) [.date (host.dateFormat d)]
    rw [List.append_assoc]
    exact reads.delimited.piece rfl
  | dur d =>
    have plain : ∀ c ∈ durationText d, c.toNat < 128 ∧ c ≠ ')' := by
      intro c member
      rcases List.mem_append.mp member with inDigits | inUnit
      · have digit := List.all_eq_true.mp (all_isDigit_toDigits _) c inDigits
        exact ⟨ascii_of_isDigit digit, by rintro rfl; cases digit⟩
      · have inUnit : c ∈ ['n', 's'] := inUnit
        simp only [List.mem_cons, List.not_mem_nil, or_false] at inUnit
        rcases inUnit with rfl | rfl <;> decide
    have reads := readsToken_duration plain
    have closing : "ns)".toList = "ns".toList ++ [')'] := rfl
    show Piece ("#dur(".toList ++ decimal d.asNanos ++ "ns)".toList)
      [.duration (String.ofList (durationText d))]
    rw [closing, List.append_assoc, ← List.append_assoc (decimal d.asNanos)]
    exact reads.delimited.piece rfl
  | bool b =>
    have reads := readsToken_bool b
    cases b with
    | false => exact reads.delimited.piece rfl
    | true => exact reads.delimited.piece rfl
  | uri text => exact (readsToken_uri closed).delimited.piece rfl

mutual

theorem piece_term (lawful : host.Lawful) :
    ∀ (term : Term), term.Meets .lexical → term.Meets .plain →
      Piece (canonicalTerm host term) (term.tokens host)
  | .var _, lexical, _ => piece_var lexical
  | .ent _, _, plain => piece_entity plain
  | .lit _, lexical, _ => piece_literal lawful (closed_of_lexical lexical)
  | .compound pred, lexical, plain => piece_predicate lawful pred lexical plain
  | .list items, lexical, plain => (piece_items lawful items lexical plain).rBracket.lBracket

theorem piece_predicate (lawful : host.Lawful) :
    ∀ (pred : Predicate), pred.Meets .lexical → pred.Meets .plain →
      Piece (canonicalPredicateInner host pred) (pred.tokens host)
  | ⟨head, args, named⟩, ⟨isName, lexical, lexicalNamed⟩, ⟨_, plain, plainNamed⟩ => by
    have arguments := (piece_args lawful args lexical plain).append
      (piece_named lawful named lexicalNamed plainNamed) (delimiting_canonicalNamed named)
    have delimiting : Delimiting (canonicalArgs host args ++ canonicalNamed host named) := by
      intro rest delimited
      rw [List.append_assoc]
      exact delimiting_canonicalArgs args _ (delimiting_canonicalNamed named _ delimited)
    have inner := ((piece_head isName).append arguments delimiting).rParen.lParen
    rw [canonicalPredicateInner, Predicate.tokens]
    simpa only [List.append_assoc, List.cons_append, List.nil_append] using inner

theorem piece_items (lawful : host.Lawful) :
    ∀ (items : List Term), Term.AllMeet .lexical items → Term.AllMeet .plain items →
      Piece (canonicalItems host items) (Term.tokensAll host items)
  | [], _, _ => piece_nil
  | term :: rest, ⟨lexical, lexicalRest⟩, ⟨plain, plainRest⟩ =>
    (piece_term lawful term lexical plain).append (piece_args lawful rest lexicalRest plainRest)
      (delimiting_canonicalArgs rest)

theorem piece_args (lawful : host.Lawful) :
    ∀ (args : List Term), Term.AllMeet .lexical args → Term.AllMeet .plain args →
      Piece (canonicalArgs host args) (Term.tokensAll host args)
  | [], _, _ => piece_nil
  | term :: rest, ⟨lexical, lexicalRest⟩, ⟨plain, plainRest⟩ =>
    ((piece_term lawful term lexical plain).space term.tokens_ne_nil).append
      (piece_args lawful rest lexicalRest plainRest) (delimiting_canonicalArgs rest)

theorem piece_named (lawful : host.Lawful) :
    ∀ (named : List (String × Term)), Term.AllMeetNamed .lexical named →
      Term.AllMeetNamed .plain named →
      Piece (canonicalNamed host named) (Term.tokensNamed host named)
  | [], _, _ => piece_nil
  | (key, term) :: rest, ⟨isWord, lexical, lexicalRest⟩, ⟨_, plain, plainRest⟩ => by
    have value := (piece_term lawful term lexical plain).append
      (piece_named lawful rest lexicalRest plainRest) (delimiting_canonicalNamed rest)
    have nonempty : term.tokens host ++ Term.tokensNamed host rest ≠ [] :=
      List.append_ne_nil_of_left_ne_nil term.tokens_ne_nil _
    have argument := ((piece_keyword isWord).spaced value nonempty).space (by simp)
    rw [canonicalNamed, Term.tokensNamed]
    simpa only [List.append_assoc, List.cons_append, List.nil_append] using argument

end

/-! ### The fields of a node -/

theorem piece_rfc3339 (lawful : host.Lawful) (t : DateTime) :
    Piece (quoted (host.toRfc3339 t).toList) [.str (host.toRfc3339 t)] :=
  (textStands_self (lawful.datetime_plain t)).piece

theorem piece_validity (lawful : host.Lawful) (validity : Validity) :
    Piece (canonicalValidity host validity) (validity.tokens host) := by
  cases validity with
  | forever =>
    have isSymbol : IsSymbol "forever" := by decide
    exact piece_symbol isSymbol
  | window from_ until_ =>
    have opening : Piece "window".toList [.symbol "window"] := piece_symbol (by decide)
    have start := opening.spaced (piece_rfc3339 lawful from_) (by simp)
    cases until_ with
    | none =>
      show Piece ("(window ".toList ++ quoted (host.toRfc3339 from_).toList ++ [] ++ [')']) _
      simpa [Validity.tokens] using start.rParen.lParen
    | some until_ =>
      have piece := (start.spaced (piece_rfc3339 lawful until_) (by simp)).rParen.lParen
      show Piece ("(window ".toList ++ quoted (host.toRfc3339 from_).toList ++
        ' ' :: quoted (host.toRfc3339 until_).toList ++ [')']) _
      simpa [Validity.tokens] using piece

theorem piece_span (span : Span) : Piece (canonicalSpan span) span.tokens := by
  have numbers := (piece_decimal span.start.toNat).spaced (piece_decimal span.stop.toNat) (by simp)
  have piece := numbers.rBracket.lBracket
  rw [canonicalSpan]
  simpa only [List.append_assoc, List.cons_append, List.nil_append, Span.tokens] using piece

/-- The printed text of a provenance stands for another one. Its texts are printed without
escapes. -/
inductive Provenance.Stands : Provenance → Provenance → Prop
  | verbatim {doc doc' : DocId} (span : Span) : TextStands doc.asStr doc'.asStr →
      Stands (.verbatim doc span) (.verbatim doc' span)
  | summary {doc doc' : DocId} (span : Span) : TextStands doc.asStr doc'.asStr →
      Stands (.summary doc span) (.summary doc' span)
  | extracted {doc doc' : DocId} (span : Span) {model model' : ModelRef} :
      TextStands doc.asStr doc'.asStr → TextStands model.name model'.name →
      TextStands model.version model'.version →
      Stands (.extracted doc span model) (.extracted doc' span model')
  | derived (from_ : NodeId) {rule rule' : RuleId} : TextStands rule.asStr rule'.asStr →
      Stands (.derived from_ rule) (.derived from_ rule')
  | asserted {by_ by_' : Principal} : TextStands by_.asStr by_'.asStr →
      Stands (.asserted by_) (.asserted by_')

theorem Provenance.stands_self {provenance : Provenance} (plain : provenance.Plain) :
    provenance.Stands provenance := by
  cases provenance with
  | verbatim doc span => exact .verbatim span (textStands_self plain)
  | summary doc span => exact .summary span (textStands_self plain)
  | extracted doc span model =>
    exact .extracted span (textStands_self plain.1) (textStands_self plain.2.1)
      (textStands_self plain.2.2)
  | derived from_ rule => exact .derived from_ (textStands_self plain)
  | asserted by_ => exact .asserted (textStands_self plain)

/-- A provenance that names a document and a span of it. -/
theorem piece_document {kind : String} (isSymbol : IsSymbol kind) {doc read : String}
    (stands : TextStands doc read) (span : Span) :
    Piece (kind.toList ++ ' ' :: (quoted doc.toList ++ ' ' :: canonicalSpan span))
      ([.symbol kind, .str read] ++ span.tokens) :=
  (piece_symbol isSymbol).spaced
    (stands.piece.spaced (piece_span span) (List.cons_ne_nil _ _)) (by simp)

/-- The text of a provenance is read as the tokens of the provenance it stands for. -/
theorem piece_provenance {provenance read : Provenance} (lexical : provenance.Lexical)
    (stands : provenance.Stands read) : Piece (canonicalProvenance provenance) read.tokens := by
  cases stands with
  | @verbatim doc _ span standsDoc =>
    have isSymbol : IsSymbol "verbatim" := by decide
    have piece := (piece_document isSymbol standsDoc span).rParen.lParen
    show Piece ("(verbatim ".toList ++ quoted doc.asStr.toList ++
      ' ' :: canonicalSpan span ++ [')']) _
    simpa [Provenance.tokens] using piece
  | @summary doc _ span standsDoc =>
    have isSymbol : IsSymbol "summary" := by decide
    have piece := (piece_document isSymbol standsDoc span).rParen.lParen
    show Piece ("(summary ".toList ++ quoted doc.asStr.toList ++
      ' ' :: canonicalSpan span ++ [')']) _
    simpa [Provenance.tokens] using piece
  | @extracted doc _ span model _ standsDoc standsName standsVersion =>
    have isSymbol : IsSymbol "extracted" := by decide
    have word : Piece "model".toList [.symbol "model"] := piece_symbol (by decide)
    have names := standsName.piece.spaced standsVersion.piece (by simp)
    have modelPiece := (word.spaced names (by simp)).rParen.lParen
    have piece := ((piece_document isSymbol standsDoc span).spaced modelPiece
      (by simp)).rParen.lParen
    show Piece ("(extracted ".toList ++ quoted doc.asStr.toList ++ ' ' :: canonicalSpan span ++
      " (model ".toList ++ quoted model.name.toList ++ ' ' :: quoted model.version.toList ++
      "))".toList) _
    simpa [Provenance.tokens] using piece
  | @derived from_ rule _ standsRule =>
    have isFrom : IsSymbol from_.asStr := lexical
    have word : Piece "derived".toList [.symbol "derived"] := piece_symbol (by decide)
    have names := (piece_symbol isFrom).spaced standsRule.piece (by simp)
    have piece := (word.spaced names (by simp)).rParen.lParen
    show Piece ("(derived ".toList ++ from_.asStr.toList ++ ' ' :: quoted rule.asStr.toList ++
      [')']) _
    simpa [Provenance.tokens] using piece
  | @asserted by_ _ standsBy =>
    have word : Piece "asserted".toList [.symbol "asserted"] := piece_symbol (by decide)
    have piece := (word.spaced standsBy.piece (by simp)).rParen.lParen
    show Piece ("(asserted ".toList ++ quoted by_.asStr.toList ++ [')']) _
    simpa [Provenance.tokens] using piece

/-- The shape of a printed number in the unit interval. -/
theorem formatF32WithDecimal_eq (lawful : host.Lawful) {v : F} (inUnit : F32.inUnit v = true) :
    ∃ sign whole fraction : List Char, (sign = [] ∨ sign = ['-']) ∧ whole ≠ [] ∧
      whole.all Char.isDigit = true ∧ fraction.all Char.isDigit = true ∧
      formatF32WithDecimal host v = sign ++ whole ++ pointed fraction := by
  obtain ⟨sign, whole, fraction, signed, nonempty, wholeDigits, fractionDigits, shape⟩ :=
    lawful.f32_plain v inUnit
  simp only [formatF32WithDecimal]
  split_ifs with hasPoint
  · refine ⟨sign, whole, fraction, signed, nonempty, wholeDigits, fractionDigits, ?_⟩
    rcases shape with ⟨isText, rfl⟩ | ⟨isText, notEmpty⟩
    · rw [isText, pointed_nil, List.append_nil]
    · obtain ⟨c, rest, rfl⟩ := List.exists_cons_of_ne_nil notEmpty
      rw [isText, pointed_cons]
  · refine ⟨sign, whole, ['0'], signed, nonempty, wholeDigits, rfl, ?_⟩
    rcases shape with ⟨isText, rfl⟩ | ⟨isText, notEmpty⟩
    · rw [isText]
      rfl
    · exact absurd (by rw [isText]; simp) hasPoint

theorem piece_f32 (lawful : host.Lawful) {v : F} (inUnit : F32.inUnit v = true) :
    Piece (formatF32WithDecimal host v)
      [.number (String.ofList (formatF32WithDecimal host v))] := by
  obtain ⟨sign, whole, fraction, signed, nonempty, wholeDigits, fractionDigits, shape⟩ :=
    formatF32WithDecimal_eq lawful inUnit
  rw [shape]
  exact piece_number signed nonempty wholeDigits fractionDigits

theorem piece_permission {tag : PermissionTag} (isNamed : tag.IsNamed) :
    Piece (canonicalPermission tag) [.symbol (String.ofList (canonicalPermission tag))] := by
  rcases isNamed with rfl | rfl | rfl | rfl
  · exact piece_symbol (show IsSymbol "public" by decide)
  · exact piece_symbol (show IsSymbol "internal" by decide)
  · exact piece_symbol (show IsSymbol "confidential" by decide)
  · exact piece_symbol (show IsSymbol "restricted" by decide)

theorem piece_canonicalDeps (deps : List NodeId) (symbols : ∀ dep ∈ deps, IsSymbol dep.asStr) :
    Piece (canonicalDeps deps) (deps.map fun dep => .symbol dep.asStr) := by
  induction deps with
  | nil => exact piece_nil
  | cons dep rest inductionHypothesis =>
    have first := piece_symbol (symbols dep List.mem_cons_self)
    have others := inductionHypothesis fun other member =>
      symbols other (List.mem_cons_of_mem _ member)
    cases rest with
    | nil => exact first
    | cons next rest => exact first.spaced others (by simp)

theorem piece_deps {deps : List NodeId} (symbols : ∀ dep ∈ deps, IsSymbol dep.asStr) :
    Piece ('[' :: (canonicalDeps deps ++ [']'])) (depsTokens deps) :=
  (piece_canonicalDeps deps symbols).rBracket.lBracket

/-! ### The node -/

/-- The text of a field, with the space before it. -/
def PrintedField.fieldText (field : PrintedField) : List Char :=
  ' ' :: ':' :: (field.key.toList ++ ' ' :: field.text)

/-- Whether the text of a field is read as its tokens. -/
structure PrintedField.Reads (field : PrintedField) : Prop where
  key : IsWord isNameByte field.key
  piece : Piece field.text field.kinds
  nonempty : field.kinds ≠ []

omit [F32 F] in
theorem delimiting_fields (fields : List PrintedField) :
    Delimiting (fields.flatMap PrintedField.fieldText) := by
  cases fields with
  | nil => exact delimiting_nil
  | cons field rest => exact delimiting_space _

theorem piece_fields (fields : List PrintedField) (reads : ∀ field ∈ fields, field.Reads) :
    Piece (fields.flatMap PrintedField.fieldText) (fields.flatMap PrintedField.tokens) := by
  induction fields with
  | nil => exact piece_nil
  | cons field rest inductionHypothesis =>
    obtain ⟨isWord, piece, nonempty⟩ := reads field List.mem_cons_self
    have first := ((piece_keyword isWord).spaced piece nonempty).space (by simp)
    exact first.append (inductionHypothesis fun other member =>
      reads other (List.mem_cons_of_mem _ member)) (delimiting_fields rest)

/-- The fields of a printed node after its predicate, where the text of the provenance is
read as some tokens. -/
def Node.otherFields (host : Host F) (node : Node F) (kinds : List TokenKind) :
    List PrintedField :=
  [⟨"valid", canonicalValidity host node.validity, node.validity.tokens host⟩,
    ⟨"src", canonicalProvenance node.provenance, kinds⟩,
    .f32 host "conf" node.confidence.value, .f32 host "auth" node.authority.value,
    ⟨"perm", canonicalPermission node.permissions,
      [.symbol (String.ofList (canonicalPermission node.permissions))]⟩] ++
    (node.depsField ++ node.noteField)

omit [F32 F] in
theorem fields_eq (node : Node F) : node.fields host =
    ⟨"pred", canonicalPredicateInner host node.predicate, node.predicate.tokens host⟩ ::
      node.otherFields host node.provenance.tokens := by
  rw [Node.fields, List.append_assoc]
  rfl

theorem isWord_key : ∀ key ∈ ["pred", "valid", "src", "conf", "auth", "perm", "deps", "note"],
    IsWord isNameByte key := by decide

theorem reads_otherFields (lawful : host.Lawful) {node : Node F} (lexical : node.Lexical)
    {read : Provenance} (stands : node.provenance.Stands read) :
    ∀ field ∈ node.otherFields host read.tokens, field.Reads := by
  intro field member
  rw [Node.otherFields, List.mem_append, List.mem_append] at member
  rcases member with fixed | isDeps | isNote
  · simp only [PrintedField.f32, List.mem_cons, List.not_mem_nil, or_false] at fixed
    rcases fixed with rfl | rfl | rfl | rfl | rfl
    · refine ⟨isWord_key _ (by simp), piece_validity lawful _, ?_⟩
      cases node.validity <;> exact List.cons_ne_nil _ _
    · refine ⟨isWord_key _ (by simp), piece_provenance lexical.provenance stands, ?_⟩
      cases read <;> exact List.cons_ne_nil _ _
    · exact ⟨isWord_key _ (by simp), piece_f32 lawful lexical.confidence, List.cons_ne_nil _ _⟩
    · exact ⟨isWord_key _ (by simp), piece_f32 lawful lexical.authority, List.cons_ne_nil _ _⟩
    · exact ⟨isWord_key _ (by simp), piece_permission lexical.permissions, List.cons_ne_nil _ _⟩
  · unfold Node.depsField at isDeps
    split_ifs at isDeps
    · cases isDeps
    · rw [List.mem_singleton.mp isDeps]
      exact ⟨isWord_key _ (by simp), piece_deps lexical.deps, List.cons_ne_nil _ _⟩
  · unfold Node.noteField at isNote
    cases isSome : node.note with
    | none =>
      rw [isSome] at isNote
      cases isNote
    | some note =>
      rw [isSome] at isNote
      rw [List.mem_singleton.mp isNote]
      exact ⟨isWord_key _ (by simp), piece_quoted_escape note, List.cons_ne_nil _ _⟩

theorem reads_fields (lawful : host.Lawful) {node : Node F} (printable : node.Printable) :
    ∀ field ∈ node.fields host, field.Reads := by
  intro field member
  rw [fields_eq, List.mem_cons] at member
  rcases member with rfl | other
  · refine ⟨isWord_key _ (by simp),
      piece_predicate lawful _ printable.predicate printable.plain.predicate, ?_⟩
    obtain ⟨head, args, named⟩ := node.predicate
    exact List.cons_ne_nil _ _
  · exact reads_otherFields lawful printable.toLexical
      (Provenance.stands_self printable.plain.provenance) field other

omit [F32 F] in
/-- The text of a node in terms of its fields. -/
theorem canonicalNode_eq (node : Node F) : canonicalNode host node =
    '(' :: ("node".toList ++ ' ' :: (node.id.asStr.toList ++
      (node.fields host).flatMap PrintedField.fieldText) ++ [')']) := by
  unfold canonicalNode Node.fields Node.depsField Node.noteField
  cases node.note <;> cases node.deps <;>
    simp [Node.fixedFields, PrintedField.fieldText, PrintedField.f32]

/-- The text of a node is one piece. -/
theorem piece_node (lawful : host.Lawful) {node : Node F} (printable : node.Printable) :
    Piece (canonicalNode host node) (node.tokens host) := by
  have fields := piece_fields _ (reads_fields lawful printable)
  have word : Piece "node".toList [.symbol "node"] := piece_symbol (by decide)
  have named := (piece_symbol printable.id).append fields (delimiting_fields _)
  have piece := (word.spaced named (by simp)).rParen.lParen
  rw [canonicalNode_eq, Node.tokens]
  simpa using piece

end Printing

end Factum
