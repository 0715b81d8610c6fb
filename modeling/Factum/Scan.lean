/-
This file is about what the lexer reads from texts.

Everything is said in one form: from a lexer whose bytes are those of a piece of text
and whatever follows it, the lexer reads the token of the piece and is left with the
bytes of what follows. A word ends where the following character is not of its kind,
so what follows may matter; in a printed text it is always a space, a closing bracket
or the end. Pieces that follow each other are read one after the other, and a text
that is made of pieces is tokenized to the tokens of its pieces.
-/

import Factum.Lexer
import Factum.Library.Stateful

namespace Factum

open Stateful

namespace Lexer

/-! ### One character -/

/-- Whether the bytes from the position on are those of a text. -/
def At (lexer : Lexer) (text : List Char) : Prop := lexer.src = Utf8.bytes text

theorem At.src_ascii {lexer : Lexer} {c : Char} {text : List Char} (here : lexer.At (c :: text))
    (ascii : c.toNat < 128) : lexer.src = byte c :: Utf8.bytes text := by
  rw [here, Utf8.bytes_cons, Utf8.encode_ascii ascii]
  rfl

theorem At.step {lexer : Lexer} {c : Char} {text : List Char} (here : lexer.At (c :: text))
    (ascii : c.toNat < 128) : lexer.step.At text := by
  rw [At, Lexer.step, here.src_ascii ascii]
  rfl

theorem At.length {lexer : Lexer} {text : List Char} (here : lexer.At text) :
    text.length ≤ lexer.src.length := by
  rw [here]
  clear here
  induction text with
  | nil => exact Nat.zero_le _
  | cons c rest inductionHypothesis =>
    have width := List.length_pos_of_ne_nil (Utf8.encode_ne_nil c)
    rw [Utf8.bytes_cons, List.length_append, List.length_cons]
    omega

theorem byte_injective {c d : Char} (ascii : c.toNat < 128) (ascii' : d.toNat < 128)
    (same : byte c = byte d) : c = d := by
  have codes := congrArg UInt8.toNat same
  rw [byte, byte, Utf8.toNat_ofNat_of_lt (by omega), Utf8.toNat_ofNat_of_lt (by omega)] at codes
  exact Char.toNat_inj.mp codes

theorem latin1_byte {c : Char} (ascii : c.toNat < 128) : latin1 (byte c) = c := by
  rw [latin1, byte, Utf8.toNat_ofNat_of_lt (by omega), Char.ofNat_toNat]

/-- A set of bytes that holds all bytes from 128 on. -/
def Wide (accepts : UInt8 → Bool) : Prop := ∀ b : UInt8, 128 ≤ b.toNat → accepts b = true

/-- Whether a character is of a kind that is given by its bytes. -/
def acceptsChar (accepts : UInt8 → Bool) (c : Char) : Bool :=
  if c.toNat < 128 then accepts (byte c) else true

/-- The next character is read whole. -/
theorem readChar_run {lexer : Lexer} {c : Char} {text : List Char}
    (here : lexer.At (c :: text)) :
    ∃ lead after, lexer.src.head? = some lead ∧ readChar lead lexer = .ok c after ∧
      after.At text ∧ (c.toNat < 128 → lead = byte c) ∧ (128 ≤ c.toNat → 128 ≤ lead.toNat) := by
  by_cases ascii : c.toNat < 128
  · refine ⟨byte c, lexer.step, by rw [here.src_ascii ascii]; rfl, ?_, here.step ascii,
      fun _ => rfl, fun wide => absurd ascii (by omega)⟩
    have narrow : ¬ (0x80 : UInt8) ≤ byte c := by
      rw [UInt8.le_iff_toNat_le, byte, Utf8.toNat_ofNat_of_lt (by omega)]
      exact Nat.not_le.mpr ascii
    rw [readChar, if_neg narrow]
    show EStateM.Result.ok (latin1 (byte c)) lexer.step = _
    rw [latin1_byte ascii]
  · obtain ⟨lead, tail, shape, width⟩ := Utf8.width?_encode c
    have source : lexer.src = lead :: (tail ++ Utf8.bytes text) := by
      rw [here, Utf8.bytes_cons, shape]
      rfl
    have wideLead : 128 ≤ lead.toNat := by
      refine Utf8.le_of_mem_encode (c := c) (by omega) ?_
      rw [shape]
      exact List.mem_cons_self
    refine ⟨lead, lexer.skip (String.utf8EncodeChar c).length, by rw [source]; rfl, ?_, ?_,
      fun narrow => absurd narrow ascii, fun _ => wideLead⟩
    · have high : (0x80 : UInt8) ≤ lead := by
        rw [UInt8.le_iff_toNat_le]
        exact wideLead
      have sequence : lexer.src.take (String.utf8EncodeChar c).length =
          String.utf8EncodeChar c := by
        rw [here, Utf8.bytes_cons, List.take_left]
      have enough : ¬ lexer.src.length < (String.utf8EncodeChar c).length := by
        rw [here, Utf8.bytes_cons, List.length_append]
        omega
      rw [readChar, if_pos high, readUtf8Char, get_bind_run]
      simp only [source, width]
      rw [← source, if_neg enough, sequence, Utf8.decode?_encode]
      rfl
    · rw [At, Lexer.skip, here, Utf8.bytes_cons, List.drop_left]

/-! ### Words -/

/-- A text that is empty or whose first character is not of a kind. -/
def Ends (accepts : UInt8 → Bool) (text : List Char) : Prop :=
  ∀ c rest, text = c :: rest → acceptsChar accepts c = false

theorem accepts_lead {accepts : UInt8 → Bool} (wide : Wide accepts) {c : Char} {lead : UInt8}
    (narrowLead : c.toNat < 128 → lead = byte c) (wideLead : 128 ≤ c.toNat → 128 ≤ lead.toNat) :
    accepts lead = acceptsChar accepts c := by
  unfold acceptsChar
  split_ifs with ascii
  · rw [narrowLead ascii]
  · exact wide lead (wideLead (by omega))

theorem peek_bind_run {α : Type} {lexer : Lexer} (next : Option UInt8 → LexM α) :
    (peek >>= next) lexer = next lexer.src.head? lexer := rfl

theorem peekAt_bind_run {α : Type} {lexer : Lexer} (offset : Nat)
    (next : Option UInt8 → LexM α) :
    (peekAt offset >>= next) lexer = next lexer.src[offset]? lexer := rfl

theorem advance_bind_run {α : Type} {lexer : Lexer} (next : Unit → LexM α) :
    (advance >>= next) lexer = next () lexer.step := rfl

/-- A word is read up to the first character that is not of its kind. -/
theorem lexWordLoop_run {accepts : UInt8 → Bool} (wide : Wide accepts) {rest : List Char}
    (ends : Ends accepts rest) : ∀ (word : List Char), (∀ c ∈ word, acceptsChar accepts c = true) →
    ∀ (fuel : Nat) (buf : List Char) (lexer : Lexer), word.length < fuel →
      lexer.At (word ++ rest) → ∃ after, lexWordLoop accepts fuel buf lexer =
        .ok (buf ++ word) after ∧ after.At rest := by
  intro word
  induction word with
  | nil =>
    intro _ fuel buf lexer enough here
    obtain ⟨less, rfl⟩ := Nat.exists_eq_add_one_of_ne_zero (Nat.ne_zero_of_lt enough)
    refine ⟨lexer, ?_, here⟩
    rw [List.append_nil, lexWordLoop, peek_bind_run]
    cases rest with
    | nil =>
      have empty : lexer.src = [] := here
      rw [empty]
      rfl
    | cons c tail =>
      obtain ⟨lead, _, head, _, _, narrowLead, wideLead⟩ := readChar_run here
      rw [head]
      simp only [accepts_lead wide narrowLead wideLead, ends c tail rfl, Bool.false_eq_true,
        if_false]
      rfl
  | cons c word inductionHypothesis =>
    intro accepted fuel buf lexer enough here
    obtain ⟨less, rfl⟩ := Nat.exists_eq_add_one_of_ne_zero (Nat.ne_zero_of_lt enough)
    obtain ⟨lead, between, head, read, next, narrowLead, wideLead⟩ := readChar_run here
    obtain ⟨after, ran, there⟩ := inductionHypothesis
      (fun d member => accepted d (List.mem_cons_of_mem _ member)) less (buf ++ [c]) between
      (by simpa using enough) next
    refine ⟨after, ?_, there⟩
    rw [lexWordLoop, peek_bind_run, head]
    simp only [accepts_lead wide narrowLead wideLead, accepted c List.mem_cons_self, if_true]
    rw [bind_ok read, ran, List.append_assoc, List.singleton_append]

theorem lexWord_run {accepts : UInt8 → Bool} (wide : Wide accepts) {word rest : List Char}
    (accepted : ∀ c ∈ word, acceptsChar accepts c = true) (ends : Ends accepts rest)
    {lexer : Lexer} (here : lexer.At (word ++ rest)) :
    ∃ after, lexWord accepts lexer = .ok word after ∧ after.At rest := by
  have length := here.length
  rw [List.length_append] at length
  exact lexWordLoop_run wide ends word accepted _ [] lexer (by omega) here

theorem wide_isNameByte : Wide isNameByte := by
  intro b high
  have wide : (0x80 : UInt8) ≤ b := by
    rw [UInt8.le_iff_toNat_le]
    exact high
  simp [isNameByte, wide]

theorem wide_isEntityByte : Wide isEntityByte := by
  intro b high
  have wide : (0x80 : UInt8) ≤ b := by
    rw [UInt8.le_iff_toNat_le]
    exact high
  simp [isEntityByte, wide]

theorem wide_isSymbolByte : Wide isSymbolByte := by
  intro b high
  have different : ∀ c : Char, c.toNat < 128 → (b == byte c) = false := by
    intro c ascii
    rw [beq_eq_false_iff_ne]
    rintro rfl
    rw [byte, Utf8.toNat_ofNat_of_lt (by omega)] at high
    omega
  simp only [isSymbolByte, different _ (by decide : '('.toNat < 128),
    different _ (by decide : ')'.toNat < 128), different _ (by decide : '['.toNat < 128),
    different _ (by decide : ']'.toNat < 128), different _ (by decide : ' '.toNat < 128),
    different _ (by decide : '\t'.toNat < 128), different _ (by decide : '\n'.toNat < 128),
    different _ (by decide : '\r'.toNat < 128), different _ (by decide : ';'.toNat < 128),
    different _ (by decide : '"'.toNat < 128), different _ (by decide : ':'.toNat < 128),
    different _ (by decide : '?'.toNat < 128), different _ (by decide : '@'.toNat < 128),
    different _ (by decide : '<'.toNat < 128), different _ (by decide : '#'.toNat < 128)]
  rfl

/-! ### Single tokens -/

/-- On a piece of text, whatever follows it, the lexer reads one token. -/
def ReadsToken (follows : List Char → Prop) (text : List Char) (kind : TokenKind) : Prop :=
  ∀ rest, follows rest → ∀ lexer : Lexer, lexer.At (text ++ rest) →
    ∃ tok next, nextToken lexer = .ok tok next ∧ tok.kind = kind ∧ next.At rest

/-- Anything may follow. -/
def Anything (_ : List Char) : Prop := True

/-- What follows a word of a printed text: nothing, a space or a closing bracket. -/
def Delimited (rest : List Char) : Prop :=
  ∀ c tail, rest = c :: tail → c = ' ' ∨ c = ')' ∨ c = ']'

theorem Delimited.ends {accepts : UInt8 → Bool} {rest : List Char} (delimited : Delimited rest)
    (space : accepts (byte ' ') = false) (paren : accepts (byte ')') = false)
    (bracket : accepts (byte ']') = false) : Ends accepts rest := by
  intro c tail isRest
  rcases delimited c tail isRest with rfl | rfl | rfl
  · exact space
  · exact paren
  · exact bracket

/-- What the lexer does is decided by the first byte. -/
theorem nextToken_of_src {lexer : Lexer} {c : UInt8} {rest : List UInt8}
    (source : lexer.src = c :: rest) : nextToken lexer =
      (if c == byte '(' then do advance; return lexer.token .lParen
      else if c == byte ')' then do advance; return lexer.token .rParen
      else if c == byte '[' then do advance; return lexer.token .lBracket
      else if c == byte ']' then do advance; return lexer.token .rBracket
      else if c == byte '"' then lexString lexer
      else if c == byte '?' then lexVar lexer
      else if c == byte ':' then lexKeyword lexer
      else if c == byte '<' then lexUri lexer
      else if c == byte '@' then lexEntity lexer
      else if c == byte '#' then lexHashPrefixed lexer
      else if isAsciiDigit c || (c == byte '-' && (rest.head?.map isAsciiDigit).getD false) then
        lexNumber lexer
      else lexSymbol lexer) lexer := by
  rw [nextToken, get_bind_run, source]

theorem readsToken_lParen : ReadsToken Anything ['('] .lParen := by
  intro rest _ lexer here
  rw [nextToken_of_src (here.src_ascii (by decide))]
  exact ⟨_, _, rfl, rfl, here.step (by decide)⟩

theorem readsToken_rParen : ReadsToken Anything [')'] .rParen := by
  intro rest _ lexer here
  rw [nextToken_of_src (here.src_ascii (by decide))]
  exact ⟨_, _, rfl, rfl, here.step (by decide)⟩

theorem readsToken_lBracket : ReadsToken Anything ['['] .lBracket := by
  intro rest _ lexer here
  rw [nextToken_of_src (here.src_ascii (by decide))]
  exact ⟨_, _, rfl, rfl, here.step (by decide)⟩

theorem readsToken_rBracket : ReadsToken Anything [']'] .rBracket := by
  intro rest _ lexer here
  rw [nextToken_of_src (here.src_ascii (by decide))]
  exact ⟨_, _, rfl, rfl, here.step (by decide)⟩

/-- Whether a text is a word of characters of a kind. -/
structure IsWord (accepts : UInt8 → Bool) (text : String) : Prop where
  nonempty : text.toList ≠ []
  accepted : ∀ c ∈ text.toList, acceptsChar accepts c = true

instance (accepts : UInt8 → Bool) (text : String) : Decidable (IsWord accepts text) :=
  decidable_of_iff (text.toList ≠ [] ∧ text.toList.all (acceptsChar accepts) = true)
    ⟨fun ⟨nonempty, accepted⟩ => ⟨nonempty, List.all_eq_true.mp accepted⟩,
      fun isWord => ⟨isWord.1, List.all_eq_true.mpr isWord.2⟩⟩

/-- A sigil and a word. -/
theorem lexSigil_run {accepts : UInt8 → Bool} (wide : Wide accepts) {text : String}
    (isWord : IsWord accepts text) {sigil : Char} (ascii : sigil.toNat < 128) {rest : List Char}
    (ends : Ends accepts rest) (kind : String → TokenKind) (message : String) {lexer : Lexer}
    (here : lexer.At (sigil :: (text.toList ++ rest))) :
    ∃ tok next, lexSigil accepts kind message lexer lexer = .ok tok next ∧
      tok.kind = kind text ∧ next.At rest := by
  obtain ⟨after, read, there⟩ := lexWord_run wide isWord.accepted ends (here.step ascii)
  refine ⟨lexer.token (kind text), after, ?_, rfl, there⟩
  rw [lexSigil, advance, modify_bind_run, bind_ok read]
  have nonempty : text.toList.isEmpty = false := by
    simpa using isWord.nonempty
  rw [nonempty, String.ofList_toList]
  rfl

theorem readsToken_var {name : String} (isWord : IsWord isNameByte name) :
    ReadsToken Delimited ('?' :: name.toList) (.var name) := by
  intro rest delimited lexer here
  rw [nextToken_of_src (here.src_ascii (by decide))]
  exact lexSigil_run wide_isNameByte isWord (by decide)
    (delimited.ends (by decide) (by decide) (by decide)) .var _ here

theorem readsToken_keyword {name : String} (isWord : IsWord isNameByte name) :
    ReadsToken Delimited (':' :: name.toList) (.keyword name) := by
  intro rest delimited lexer here
  rw [nextToken_of_src (here.src_ascii (by decide))]
  exact lexSigil_run wide_isNameByte isWord (by decide)
    (delimited.ends (by decide) (by decide) (by decide)) .keyword _ here

theorem readsToken_entity {name : String} (isWord : IsWord isEntityByte name) :
    ReadsToken Delimited ('@' :: name.toList) (.entity name) := by
  intro rest delimited lexer here
  rw [nextToken_of_src (here.src_ascii (by decide))]
  exact lexSigil_run wide_isEntityByte isWord (by decide)
    (delimited.ends (by decide) (by decide) (by decide)) .entity _ here

/-- Whether a text starts like a number: with a digit, or a minus sign and a digit. -/
def startsLikeNumber : List Char → Bool
  | '-' :: c :: _ => c.isDigit
  | c :: _ => c.isDigit
  | [] => false

/-- Whether a text is a symbol: a word that does not start like a number. -/
structure IsSymbol (text : String) : Prop extends IsWord isSymbolByte text where
  notNumber : startsLikeNumber text.toList = false

instance (text : String) : Decidable (IsSymbol text) :=
  decidable_of_iff (IsWord isSymbolByte text ∧ startsLikeNumber text.toList = false)
    ⟨fun ⟨isWord, notNumber⟩ => ⟨isWord, notNumber⟩, fun isSymbol => ⟨isSymbol.1, isSymbol.2⟩⟩

/-- A byte that starts a character is a digit when the character is. -/
theorem isAsciiDigit_lead {c : Char} {lead : UInt8} (narrowLead : c.toNat < 128 → lead = byte c)
    (wideLead : 128 ≤ c.toNat → 128 ≤ lead.toNat) : isAsciiDigit lead = c.isDigit := by
  have zero : (byte '0').toNat = 48 := rfl
  have nine : (byte '9').toNat = 57 := rfl
  have isDigit : c.isDigit = (decide (48 ≤ c.toNat) && decide (c.toNat ≤ 57)) := rfl
  rw [isDigit, isAsciiDigit]
  simp only [UInt8.le_iff_toNat_le, zero, nine]
  by_cases ascii : c.toNat < 128
  · rw [narrowLead ascii, byte, Utf8.toNat_ofNat_of_lt (by omega)]
  · have high := wideLead (by omega)
    rw [decide_eq_false (by omega : ¬ lead.toNat ≤ 57), decide_eq_false (by omega : ¬ c.toNat ≤ 57),
      Bool.and_false, Bool.and_false]

/-- The byte at the head is that of the first character. -/
theorem At.head {lexer : Lexer} {c : Char} {text : List Char} (here : lexer.At (c :: text)) :
    ∃ lead tail, lexer.src = lead :: tail ∧ (c.toNat < 128 → lead = byte c) ∧
      (128 ≤ c.toNat → 128 ≤ lead.toNat) ∧ (c.toNat < 128 → tail = Utf8.bytes text) := by
  obtain ⟨lead, _, head, _, _, narrowLead, wideLead⟩ := readChar_run here
  obtain ⟨tail, source⟩ := List.head?_eq_some_iff.mp head
  refine ⟨lead, tail, source, narrowLead, wideLead, fun ascii => ?_⟩
  have same := here.src_ascii ascii
  rw [source] at same
  exact (List.cons.inj same).2

theorem headDigit_eq {text : List Char} {d : Char} {rest : List Char} (isText : text = d :: rest) :
    ((Utf8.bytes text).head?.map isAsciiDigit).getD false = d.isDigit := by
  have here : (⟨Utf8.bytes text, 0, 0, 0⟩ : Lexer).At (d :: rest) := by rw [At, isText]
  obtain ⟨lead, tail, source, narrowLead, wideLead, _⟩ := here.head
  have bytes : Utf8.bytes text = lead :: tail := source
  rw [bytes]
  exact isAsciiDigit_lead narrowLead wideLead

/-- What follows a word of a printed text does not start with a digit or a point. -/
theorem Delimited.headDigit {rest : List Char} (delimited : Delimited rest) :
    ((Utf8.bytes rest).head?.map isAsciiDigit).getD false = false := by
  cases rest with
  | nil => rfl
  | cons c tail =>
    rw [headDigit_eq rfl]
    rcases delimited c tail rfl with rfl | rfl | rfl <;> rfl

theorem readsToken_symbol {text : String} (isSymbol : IsSymbol text) :
    ReadsToken Delimited text.toList (.symbol text) := by
  intro rest delimited lexer here
  obtain ⟨c, word, isText⟩ := List.exists_cons_of_ne_nil isSymbol.nonempty
  have here' := here
  rw [isText, List.cons_append] at here'
  obtain ⟨lead, tail, source, narrowLead, wideLead, isTail⟩ := here'.head
  have symbolLead : isSymbolByte lead = true := by
    rw [accepts_lead wide_isSymbolByte narrowLead wideLead]
    exact isSymbol.accepted c (by rw [isText]; exact List.mem_cons_self)
  have notNumber := isSymbol.notNumber
  rw [isText] at notNumber
  have notDigit : isAsciiDigit lead = false := by
    rw [isAsciiDigit_lead narrowLead wideLead]
    unfold startsLikeNumber at notNumber
    split at notNumber
    · rename_i same
      rw [(List.cons.inj same).1]
      rfl
    · rename_i same
      rwa [(List.cons.inj same).1]
    · rename_i same
      cases same
  have notSigned : (lead == byte '-' && (tail.head?.map isAsciiDigit).getD false) = false := by
    by_cases isMinus : lead = byte '-'
    · have ascii : c.toNat < 128 := by
        by_contra wide
        have high := wideLead (by omega)
        rw [isMinus] at high
        exact absurd high (by decide)
      obtain rfl : c = '-' := byte_injective ascii (by decide) (by rw [← narrowLead ascii, isMinus])
      rw [isTail ascii]
      cases word with
      | nil => rw [List.nil_append, delimited.headDigit, Bool.and_false]
      | cons d word =>
        rw [List.cons_append, headDigit_eq rfl]
        have notDigit : d.isDigit = false := notNumber
        rw [notDigit, Bool.and_false]
    · rw [beq_eq_false_iff_ne.mpr isMinus, Bool.false_and]
  obtain ⟨after, read, there⟩ := lexWord_run wide_isSymbolByte isSymbol.accepted
    (delimited.ends (by decide) (by decide) (by decide)) here
  refine ⟨lexer.token (.symbol text), after, ?_, rfl, there⟩
  rw [nextToken_of_src source]
  simp only [isSymbolByte, Bool.not_eq_true', Bool.or_eq_false_iff] at symbolLead
  simp only [symbolLead, notDigit, notSigned, Bool.false_eq_true, Bool.or_self, if_false]
  rw [lexSymbol, bind_ok read]
  have nonempty : text.toList.isEmpty = false := by
    simpa using isSymbol.nonempty
  rw [nonempty, String.ofList_toList]
  rfl

/-! ### Strings and other quoted forms -/

/-- The text that the body of a string literal stands for. -/
inductive StringBody : List Char → List Char → Prop
  | nil : StringBody [] []
  | plain {c : Char} {body text : List Char} : c ≠ '"' → c ≠ '\\' → StringBody body text →
      StringBody (c :: body) (c :: text)
  | escaped {c : Char} {body text : List Char} : c.toNat < 128 → StringBody body text →
      StringBody ('\\' :: c :: body) (unescape (byte c) :: text)

theorem StringBody.append {body body' text text' : List Char} (first : StringBody body text)
    (second : StringBody body' text') : StringBody (body ++ body') (text ++ text') := by
  induction first with
  | nil => exact second
  | plain notQuote notBackslash _ inductionHypothesis =>
    exact .plain notQuote notBackslash inductionHypothesis
  | escaped ascii _ inductionHypothesis => exact .escaped ascii inductionHypothesis

/-- A text without quotes and backslashes stands for itself. -/
theorem stringBody_self {text : List Char} (plain : ∀ c ∈ text, c ≠ '"' ∧ c ≠ '\\') :
    StringBody text text := by
  induction text with
  | nil => exact .nil
  | cons c rest inductionHypothesis =>
    have first := plain c List.mem_cons_self
    exact .plain first.1 first.2
      (inductionHypothesis fun d member => plain d (List.mem_cons_of_mem _ member))

/-- The first byte of a character other than an ASCII one is not the byte of that one. -/
theorem lead_ne {c d : Char} {lead : UInt8} (narrowLead : c.toNat < 128 → lead = byte c)
    (wideLead : 128 ≤ c.toNat → 128 ≤ lead.toNat) (ascii : d.toNat < 128) (different : c ≠ d) :
    (lead == byte d) = false := by
  rw [beq_eq_false_iff_ne]
  intro same
  by_cases narrow : c.toNat < 128
  · exact different (byte_injective narrow ascii (by rw [← narrowLead narrow, same]))
  · have high := wideLead (by omega)
    rw [same, byte, Utf8.toNat_ofNat_of_lt (by omega)] at high
    omega

theorem lexStringLoop_run (start : Lexer) {body text : List Char} (stands : StringBody body text)
    (rest : List Char) : ∀ (fuel : Nat) (buf : List Char) (lexer : Lexer), body.length < fuel →
      lexer.At (body ++ '"' :: rest) →
      ∃ after, lexStringLoop start fuel buf lexer = .ok (buf ++ text) after ∧ after.At rest := by
  induction stands with
  | nil =>
    intro fuel buf lexer enough here
    obtain ⟨less, rfl⟩ := Nat.exists_eq_add_one_of_ne_zero (Nat.ne_zero_of_lt enough)
    refine ⟨lexer.step, ?_, At.step (c := '"') here (by decide)⟩
    rw [lexStringLoop, peek_bind_run, At.src_ascii (c := '"') here (by decide), List.append_nil]
    rfl
  | @plain c body text notQuote notBackslash _ inductionHypothesis =>
    intro fuel buf lexer enough here
    obtain ⟨less, rfl⟩ := Nat.exists_eq_add_one_of_ne_zero (Nat.ne_zero_of_lt enough)
    obtain ⟨lead, between, head, read, next, narrowLead, wideLead⟩ := readChar_run here
    obtain ⟨after, ran, there⟩ := inductionHypothesis less (buf ++ [c]) between
      (by simpa using enough) next
    refine ⟨after, ?_, there⟩
    rw [lexStringLoop, peek_bind_run, head]
    simp only [lead_ne narrowLead wideLead (by decide) notQuote,
      lead_ne narrowLead wideLead (by decide) notBackslash, Bool.false_eq_true, if_false]
    rw [bind_ok read, ran, List.append_assoc, List.singleton_append]
  | @escaped c body text ascii _ inductionHypothesis =>
    intro fuel buf lexer enough here
    obtain ⟨less, rfl⟩ := Nat.exists_eq_add_one_of_ne_zero (Nat.ne_zero_of_lt enough)
    have afterBackslash : lexer.step.At (c :: (body ++ '"' :: rest)) :=
      At.step (c := '\\') here (by decide)
    obtain ⟨after, ran, there⟩ := inductionHypothesis less (buf ++ [unescape (byte c)])
      lexer.step.step (by simp only [List.length_cons] at enough; omega)
      (afterBackslash.step ascii)
    refine ⟨after, ?_, there⟩
    rw [lexStringLoop, peek_bind_run, At.src_ascii (c := '\\') here (by decide), List.head?_cons]
    dsimp only
    rw [if_neg (by decide), if_pos (by decide), advance_bind_run, peek_bind_run,
      afterBackslash.src_ascii ascii, List.head?_cons]
    dsimp only
    rw [advance_bind_run, ran, List.append_assoc, List.singleton_append]

theorem readsToken_str {body text : List Char} (stands : StringBody body text) :
    ReadsToken Anything ('"' :: (body ++ ['"'])) (.str (String.ofList text)) := by
  intro rest _ lexer here
  rw [List.cons_append, List.append_assoc, List.singleton_append] at here
  have inside := here.step (by decide)
  have length := inside.length
  rw [List.length_append] at length
  obtain ⟨after, ran, there⟩ := lexStringLoop_run lexer stands rest
    (lexer.step.src.length + 1) [] lexer.step (by omega) inside
  refine ⟨lexer.token (.str (String.ofList text)), after, ?_, rfl, there⟩
  rw [nextToken_of_src (here.src_ascii (by decide))]
  show lexString lexer lexer = _
  rw [lexString, advance_bind_run, get_bind_run, bind_ok ran]
  rfl

theorem lexUriLoop_run (start : Lexer) {rest : List Char} : ∀ (text : List Char),
    '>' ∉ text → ∀ (fuel : Nat) (buf : List Char) (lexer : Lexer), text.length < fuel →
      lexer.At (text ++ '>' :: rest) →
      ∃ after, lexUriLoop start fuel buf lexer = .ok (buf ++ text) after ∧ after.At rest := by
  intro text
  induction text with
  | nil =>
    intro _ fuel buf lexer enough here
    obtain ⟨less, rfl⟩ := Nat.exists_eq_add_one_of_ne_zero (Nat.ne_zero_of_lt enough)
    refine ⟨lexer.step, ?_, At.step (c := '>') here (by decide)⟩
    rw [lexUriLoop, peek_bind_run, At.src_ascii (c := '>') here (by decide), List.append_nil]
    rfl
  | cons c text inductionHypothesis =>
    intro noBracket fuel buf lexer enough here
    obtain ⟨less, rfl⟩ := Nat.exists_eq_add_one_of_ne_zero (Nat.ne_zero_of_lt enough)
    have notBracket : c ≠ '>' := fun same => noBracket (same ▸ List.mem_cons_self)
    obtain ⟨lead, between, head, read, next, narrowLead, wideLead⟩ := readChar_run here
    obtain ⟨after, ran, there⟩ := inductionHypothesis
      (fun member => noBracket (List.mem_cons_of_mem _ member)) less (buf ++ [c]) between
      (by simpa using enough) next
    refine ⟨after, ?_, there⟩
    rw [lexUriLoop, peek_bind_run, head]
    simp only [lead_ne narrowLead wideLead (by decide) notBracket, Bool.false_eq_true, if_false]
    rw [bind_ok read, ran, List.append_assoc, List.singleton_append]

theorem readsToken_uri {text : String} (noBracket : '>' ∉ text.toList) :
    ReadsToken Anything ('<' :: (text.toList ++ ['>'])) (.uri text) := by
  intro rest _ lexer here
  rw [List.cons_append, List.append_assoc, List.singleton_append] at here
  have inside := here.step (by decide)
  have length := inside.length
  rw [List.length_append] at length
  obtain ⟨after, ran, there⟩ := lexUriLoop_run lexer text.toList noBracket
    (lexer.step.src.length + 1) [] lexer.step (by omega) inside
  refine ⟨lexer.token (.uri text), after, ?_, rfl, there⟩
  rw [nextToken_of_src (here.src_ascii (by decide))]
  show lexUri lexer lexer = _
  rw [lexUri, advance_bind_run, get_bind_run, bind_ok ran, List.nil_append, String.ofList_toList]
  rfl

theorem readsToken_bool (b : Bool) :
    ReadsToken Anything (if b then "#t".toList else "#f".toList) (.bool b) := by
  intro rest _ lexer here
  cases b with
  | false =>
    have first : lexer.At ('#' :: 'f' :: rest) := here
    refine ⟨lexer.token (.bool false), lexer.step.step, ?_, rfl,
      (first.step (by decide)).step (by decide)⟩
    rw [nextToken_of_src (first.src_ascii (by decide))]
    show lexHashPrefixed lexer lexer = _
    rw [lexHashPrefixed, advance_bind_run, peek_bind_run,
      (first.step (by decide)).src_ascii (by decide)]
    rfl
  | true =>
    have first : lexer.At ('#' :: 't' :: rest) := here
    refine ⟨lexer.token (.bool true), lexer.step.step, ?_, rfl,
      (first.step (by decide)).step (by decide)⟩
    rw [nextToken_of_src (first.src_ascii (by decide))]
    show lexHashPrefixed lexer lexer = _
    rw [lexHashPrefixed, advance_bind_run, peek_bind_run,
      (first.step (by decide)).src_ascii (by decide)]
    rfl

/-- The bytes of a text of ASCII characters. -/
theorem bytes_ascii {text : List Char} (ascii : ∀ c ∈ text, c.toNat < 128) :
    Utf8.bytes text = text.map byte := by
  induction text with
  | nil => rfl
  | cons c rest inductionHypothesis =>
    rw [Utf8.bytes_cons, Utf8.encode_ascii (ascii c List.mem_cons_self),
      inductionHypothesis fun d member => ascii d (List.mem_cons_of_mem _ member)]
    rfl

theorem map_latin1_bytes {text : List Char} (ascii : ∀ c ∈ text, c.toNat < 128) :
    (Utf8.bytes text).map latin1 = text := by
  rw [bytes_ascii ascii, List.map_map]
  conv_rhs => rw [← List.map_id text]
  exact List.map_congr_left fun c member => latin1_byte (ascii c member)

/-- An ASCII text is taken up to the first byte that is not of a kind. -/
theorem takeWhile_bytes {kind : UInt8 → Bool} {text rest : List Char}
    (ascii : ∀ c ∈ text, c.toNat < 128) (ofKind : ∀ c ∈ text, kind (byte c) = true)
    (ends : ((Utf8.bytes rest).head?.map kind).getD false = false) :
    (Utf8.bytes (text ++ rest)).takeWhile kind = Utf8.bytes text := by
  rw [Utf8.bytes_append, bytes_ascii ascii, List.takeWhile_append_of_pos]
  · cases isRest : Utf8.bytes rest with
    | nil => rw [List.takeWhile_nil, List.append_nil]
    | cons b tail =>
      rw [isRest] at ends
      have stops : kind b = false := ends
      rw [List.takeWhile_cons_of_neg (by simp [stops]), List.append_nil]
  · intro b member
    obtain ⟨c, isChar, rfl⟩ := List.mem_map.mp member
    exact ofKind c isChar

theorem At.skip {lexer : Lexer} {text rest : List Char} (here : lexer.At (text ++ rest)) :
    (lexer.skip (Utf8.bytes text).length).At rest := by
  rw [At, Lexer.skip, here, Utf8.bytes_append, List.drop_left]

theorem advanceBy_bind_run {α : Type} {lexer : Lexer} (count : Nat) (next : Unit → LexM α) :
    (advanceBy count >>= next) lexer = next () (lexer.skip count) := rfl

/-- The content of a hash form, from its opening parenthesis on. -/
theorem lexHashForm_run (start : Lexer) (letters : List UInt8) (expected afterHash : String)
    (kind : String → TokenKind) {content rest : List Char}
    (plain : ∀ c ∈ content, c.toNat < 128 ∧ c ≠ ')') {lexer opened : Lexer}
    (named : expectBytes start expected letters lexer.step = .ok () opened)
    (here : opened.At ('(' :: (content ++ ')' :: rest))) :
    ∃ next, lexHashForm start letters expected afterHash kind lexer =
      .ok (start.token (kind (String.ofList content))) next ∧ next.At rest := by
  have inside := here.step (by decide)
  have ascii : ∀ c ∈ content, c.toNat < 128 := fun c member => (plain c member).1
  have taken : opened.step.src.takeWhile (· != byte ')') = Utf8.bytes content := by
    rw [inside]
    refine takeWhile_bytes ascii (fun c member => ?_) rfl
    rw [bne_iff_ne]
    exact fun same => (plain c member).2 (byte_injective (ascii c member) (by decide) same)
  have closing := inside.skip
  refine ⟨_, ?_, closing.step (by decide)⟩
  rw [lexHashForm, advance_bind_run, bind_ok named, peek_bind_run, here.src_ascii (by decide)]
  show (advance >>= fun _ => get >>= fun lexer => _) opened = _
  rw [advance_bind_run, get_bind_run, taken, advanceBy_bind_run, peek_bind_run,
    closing.src_ascii (by decide), map_latin1_bytes ascii]
  rfl

theorem readsToken_date {text : List Char} (plain : ∀ c ∈ text, c.toNat < 128 ∧ c ≠ ')') :
    ReadsToken Anything ("#date(".toList ++ (text ++ [')'])) (.date (String.ofList text)) := by
  intro rest _ lexer here
  have first : lexer.At ('#' :: 'd' :: 'a' :: 't' :: 'e' :: '(' :: (text ++ ')' :: rest)) := by
    simpa using here
  have second := first.step (by decide)
  have third := second.step (by decide)
  have fourth := third.step (by decide)
  have fifth := fourth.step (by decide)
  have sixth := fifth.step (by decide)
  have named : expectBytes lexer "expected 'date'" [byte 'a', byte 't', byte 'e']
      lexer.step.step = .ok () lexer.step.step.step.step.step := by
    rw [expectBytes, peek_bind_run, third.src_ascii (by decide)]
    show (expectBytes lexer "expected 'date'" [byte 't', byte 'e']) lexer.step.step.step = _
    rw [expectBytes, peek_bind_run, fourth.src_ascii (by decide)]
    show (expectBytes lexer "expected 'date'" [byte 'e']) lexer.step.step.step.step = _
    rw [expectBytes, peek_bind_run, fifth.src_ascii (by decide)]
    rfl
  obtain ⟨next, ran, there⟩ := lexHashForm_run lexer [byte 'a', byte 't', byte 'e']
    "expected 'date'" "expected '(' after #date" .date plain named sixth
  refine ⟨lexer.token (.date (String.ofList text)), next, ?_, rfl, there⟩
  have letters : lexer.step.src =
      byte 'd' :: byte 'a' :: Utf8.bytes ('t' :: 'e' :: '(' :: (text ++ ')' :: rest)) := by
    rw [second.src_ascii (by decide), Utf8.bytes_cons, Utf8.encode_ascii (by decide)]
    rfl
  rw [nextToken_of_src (first.src_ascii (by decide))]
  show lexHashPrefixed lexer lexer = _
  rw [lexHashPrefixed, advance_bind_run, peek_bind_run, peekAt_bind_run, letters]
  exact ran

theorem readsToken_duration {text : List Char} (plain : ∀ c ∈ text, c.toNat < 128 ∧ c ≠ ')') :
    ReadsToken Anything ("#dur(".toList ++ (text ++ [')'])) (.duration (String.ofList text)) := by
  intro rest _ lexer here
  have first : lexer.At ('#' :: 'd' :: 'u' :: 'r' :: '(' :: (text ++ ')' :: rest)) := by
    simpa using here
  have second := first.step (by decide)
  have third := second.step (by decide)
  have fourth := third.step (by decide)
  have fifth := fourth.step (by decide)
  have named : expectBytes lexer "expected 'dur'" [byte 'u', byte 'r'] lexer.step.step =
      .ok () lexer.step.step.step.step := by
    rw [expectBytes, peek_bind_run, third.src_ascii (by decide)]
    show (expectBytes lexer "expected 'dur'" [byte 'r']) lexer.step.step.step = _
    rw [expectBytes, peek_bind_run, fourth.src_ascii (by decide)]
    rfl
  obtain ⟨next, ran, there⟩ := lexHashForm_run lexer [byte 'u', byte 'r']
    "expected 'dur'" "expected '(' after #dur" .duration plain named fifth
  refine ⟨lexer.token (.duration (String.ofList text)), next, ?_, rfl, there⟩
  have letters : lexer.step.src =
      byte 'd' :: byte 'u' :: Utf8.bytes ('r' :: '(' :: (text ++ ')' :: rest)) := by
    rw [second.src_ascii (by decide), Utf8.bytes_cons, Utf8.encode_ascii (by decide)]
    rfl
  rw [nextToken_of_src (first.src_ascii (by decide))]
  show lexHashPrefixed lexer lexer = _
  rw [lexHashPrefixed, advance_bind_run, peek_bind_run, peekAt_bind_run, letters]
  exact ran

/-! ### Numbers -/

theorem ascii_of_isDigit {c : Char} (digit : c.isDigit = true) : c.toNat < 128 := by
  have range : (decide (48 ≤ c.toNat) && decide (c.toNat ≤ 57)) = true := digit
  simp only [Bool.and_eq_true, decide_eq_true_eq] at range
  omega

theorem isAsciiDigit_byte {c : Char} (ascii : c.toNat < 128) :
    isAsciiDigit (byte c) = c.isDigit :=
  isAsciiDigit_lead (fun _ => rfl) fun wide => absurd ascii (by omega)

/-- Digits are read up to the first character that is none. -/
theorem lexDigits_run {digits rest : List Char} (areDigits : digits.all Char.isDigit = true)
    (ends : ((Utf8.bytes rest).head?.map isAsciiDigit).getD false = false) {lexer : Lexer}
    (here : lexer.At (digits ++ rest)) :
    ∃ next, lexDigits lexer = .ok digits next ∧ next.At rest := by
  have isDigit := List.all_eq_true.mp areDigits
  have ascii : ∀ c ∈ digits, c.toNat < 128 := fun c member => ascii_of_isDigit (isDigit c member)
  have taken : lexer.src.takeWhile isAsciiDigit = Utf8.bytes digits := by
    rw [here]
    refine takeWhile_bytes ascii (fun c member => ?_) ends
    rw [isAsciiDigit_byte (ascii c member)]
    exact isDigit c member
  refine ⟨_, ?_, here.skip⟩
  rw [lexDigits, get_bind_run, taken, advanceBy_bind_run, map_latin1_bytes ascii]
  rfl

/-- The point and the digits after it. -/
def pointed (fraction : List Char) : List Char :=
  if fraction.isEmpty then [] else '.' :: fraction

@[simp] theorem pointed_nil : pointed [] = [] := rfl

@[simp] theorem pointed_cons (c : Char) (rest : List Char) :
    pointed (c :: rest) = '.' :: c :: rest := rfl

theorem mem_pointed {fraction : List Char} {c : Char} (member : c ∈ pointed fraction) :
    c = '.' ∨ c ∈ fraction := by
  unfold pointed at member
  split_ifs at member
  · cases member
  · exact List.mem_cons.mp member

/-- What follows a word of a printed text does not start with a point or a minus sign. -/
theorem Delimited.head_ne {rest : List Char} (delimited : Delimited rest) {d : Char}
    (point : d = '.' ∨ d = '-') : (Utf8.bytes rest).head? ≠ some (byte d) := by
  cases rest with
  | nil => exact fun same => by cases same
  | cons c tail =>
    rcases delimited c tail rfl with rfl | rfl | rfl <;> rcases point with rfl | rfl <;>
      exact fun same => absurd (Option.some.inj same) (by decide)

theorem byte_ne_of_isDigit {c d : Char} (digit : c.isDigit = true) (notDigit : d.isDigit = false)
    (ascii : d.toNat < 128) : byte c ≠ byte d := by
  intro same
  rw [byte_injective (ascii_of_isDigit digit) ascii same, notDigit] at digit
  cases digit

theorem lexSign_run {sign text : List Char} (signed : sign = [] ∨ sign = ['-'])
    (digits : ∃ d rest, text = d :: rest ∧ d.isDigit = true) {lexer : Lexer}
    (here : lexer.At (sign ++ text)) : ∃ next, lexSign lexer = .ok sign next ∧ next.At text := by
  rcases signed with rfl | rfl
  · refine ⟨lexer, ?_, here⟩
    obtain ⟨d, rest, rfl, digit⟩ := digits
    have notMinus : (some (byte d) == some (byte '-')) = false :=
      beq_eq_false_iff_ne.mpr fun same =>
        byte_ne_of_isDigit digit rfl (by decide) (Option.some.inj same)
    rw [lexSign, peek_bind_run, At.src_ascii (c := d) here (ascii_of_isDigit digit),
      List.head?_cons, notMinus]
    rfl
  · refine ⟨lexer.step, ?_, At.step (c := '-') here (by decide)⟩
    rw [lexSign, peek_bind_run, At.src_ascii (c := '-') here (by decide)]
    rfl

theorem lexFraction_run {fraction rest : List Char} (delimited : Delimited rest)
    (digits : fraction.all Char.isDigit = true) {lexer : Lexer}
    (here : lexer.At (pointed fraction ++ rest)) :
    ∃ next, lexFraction lexer = .ok (pointed fraction) next ∧ next.At rest := by
  cases fraction with
  | nil =>
    refine ⟨lexer, ?_, here⟩
    have notPoint : (lexer.src.head? == some (byte '.')) = false := by
      rw [here]
      exact beq_eq_false_iff_ne.mpr (delimited.head_ne (.inl rfl))
    rw [lexFraction, peek_bind_run, notPoint]
    rfl
  | cons d fraction =>
    have first : lexer.At ('.' :: (d :: fraction ++ rest)) := here
    obtain ⟨next, ran, there⟩ := lexDigits_run digits delimited.headDigit (first.step (by decide))
    refine ⟨next, ?_, there⟩
    rw [lexFraction, peek_bind_run, first.src_ascii (by decide)]
    show (advance >>= fun _ => lexDigits >>= fun digits => pure ('.' :: digits)) lexer = _
    rw [advance_bind_run, bind_ok ran]
    rfl

/-- A number with what follows it. -/
theorem lexNumber_run {sign whole fraction rest : List Char} (signed : sign = [] ∨ sign = ['-'])
    (nonempty : whole ≠ []) (wholeDigits : whole.all Char.isDigit = true)
    (fractionDigits : fraction.all Char.isDigit = true) (delimited : Delimited rest)
    (start : Lexer) {lexer : Lexer}
    (here : lexer.At (sign ++ (whole ++ (pointed fraction ++ rest)))) :
    ∃ next, lexNumber start lexer =
      .ok (start.token (.number (String.ofList (sign ++ whole ++ pointed fraction)))) next ∧
      next.At rest := by
  obtain ⟨d, digits, rfl⟩ := List.exists_cons_of_ne_nil nonempty
  have digit : d.isDigit = true := List.all_eq_true.mp wholeDigits d List.mem_cons_self
  obtain ⟨first, readSign, atWhole⟩ := lexSign_run signed
    ⟨d, digits ++ (pointed fraction ++ rest), rfl, digit⟩ here
  have ends : ((Utf8.bytes (pointed fraction ++ rest)).head?.map isAsciiDigit).getD false =
      false := by
    cases fraction with
    | nil => exact delimited.headDigit
    | cons c fraction => exact headDigit_eq rfl
  obtain ⟨second, readWhole, atFraction⟩ := lexDigits_run wholeDigits ends atWhole
  obtain ⟨third, readFraction, atRest⟩ := lexFraction_run delimited fractionDigits atFraction
  refine ⟨third, ?_, atRest⟩
  have notPoint : (third.src.head? == some (byte '.')) = false := by
    rw [atRest]
    exact beq_eq_false_iff_ne.mpr (delimited.head_ne (.inl rfl))
  rw [lexNumber, bind_ok readSign, bind_ok readWhole, bind_ok readFraction, peek_bind_run,
    peekAt_bind_run, notPoint]
  rfl

theorem readsToken_number {sign whole fraction : List Char} (signed : sign = [] ∨ sign = ['-'])
    (nonempty : whole ≠ []) (wholeDigits : whole.all Char.isDigit = true)
    (fractionDigits : fraction.all Char.isDigit = true) :
    ReadsToken Delimited (sign ++ whole ++ pointed fraction)
      (.number (String.ofList (sign ++ whole ++ pointed fraction))) := by
  intro rest delimited lexer here
  rw [List.append_assoc, List.append_assoc] at here
  obtain ⟨next, ran, there⟩ := lexNumber_run signed nonempty wholeDigits fractionDigits delimited
    lexer here
  refine ⟨lexer.token (.number (String.ofList (sign ++ whole ++ pointed fraction))), next, ?_,
    rfl, there⟩
  obtain ⟨d, digits, rfl⟩ := List.exists_cons_of_ne_nil nonempty
  have digit : d.isDigit = true := List.all_eq_true.mp wholeDigits d List.mem_cons_self
  have ascii := ascii_of_isDigit digit
  rcases signed with rfl | rfl
  · have different : ∀ c : Char, c.isDigit = false → c.toNat < 128 → (byte d == byte c) = false :=
      fun c notDigit narrow => beq_eq_false_iff_ne.mpr (byte_ne_of_isDigit digit notDigit narrow)
    rw [nextToken_of_src (At.src_ascii (c := d) here ascii), isAsciiDigit_byte ascii, digit]
    simp only [different '(' rfl (by decide), different ')' rfl (by decide),
      different '[' rfl (by decide), different ']' rfl (by decide), different '"' rfl (by decide),
      different '?' rfl (by decide), different ':' rfl (by decide), different '<' rfl (by decide),
      different '@' rfl (by decide), different '#' rfl (by decide), Bool.false_eq_true, if_false,
      Bool.true_or, if_true]
    exact ran
  · have afterSign : ((Utf8.bytes (d :: digits ++ (pointed fraction ++ rest))).head?.map
        isAsciiDigit).getD false = true := by
      rw [List.cons_append, headDigit_eq rfl, digit]
    rw [nextToken_of_src (At.src_ascii (c := '-') here (by decide))]
    show (if (isAsciiDigit (byte '-') || (byte '-' == byte '-' && ((Utf8.bytes
      (d :: digits ++ (pointed fraction ++ rest))).head?.map isAsciiDigit).getD false)) = true
      then lexNumber lexer else lexSymbol lexer) lexer = _
    rw [afterSign]
    exact ran

/-! ### Texts -/

/-- The lexer after the spaces that are next. -/
def skipped (lexer : Lexer) : Lexer := skipSpaces lexer.src lexer.pos lexer.line lexer.col

theorem skipSpaces_of_plain {c : UInt8} {rest : List UInt8} (pos line col : Nat)
    (plain : c ≠ byte ' ' ∧ c ≠ byte '\t' ∧ c ≠ byte '\r' ∧ c ≠ byte '\n') :
    skipSpaces (c :: rest) pos line col = ⟨c :: rest, pos, line, col⟩ := by
  obtain ⟨notSpace, notTab, notReturn, notNewline⟩ := plain
  rw [skipSpaces, beq_eq_false_iff_ne.mpr notSpace, beq_eq_false_iff_ne.mpr notTab,
    beq_eq_false_iff_ne.mpr notReturn, beq_eq_false_iff_ne.mpr notNewline]
  rfl

/-- From one position the lexer reads tokens of these kinds, one after the other, and gets to
another position. -/
inductive Scans : Lexer → List TokenKind → Lexer → Prop
  | done (lexer : Lexer) : Scans lexer [] lexer
  | token {before next last : Lexer} {tok : Token} {kinds : List TokenKind} {c : UInt8}
      {tail : List UInt8} : (skipped before).src = c :: tail → c ≠ byte ';' →
      nextToken (skipped before) = .ok tok next → next.src.length < before.src.length →
      Scans next kinds last → Scans before (tok.kind :: kinds) last

theorem Scans.trans {before between last : Lexer} {kinds kinds' : List TokenKind}
    (first : Scans before kinds between) (second : Scans between kinds' last) :
    Scans before (kinds ++ kinds') last := by
  induction first with
  | done => exact second
  | token starts notComment read shorter _ inductionHypothesis =>
    exact .token starts notComment read shorter (inductionHypothesis second)

/-- There are at most as many tokens as bytes. -/
theorem Scans.length_le {before last : Lexer} {kinds : List TokenKind}
    (scans : Scans before kinds last) : kinds.length ≤ before.src.length := by
  induction scans with
  | done => exact Nat.zero_le _
  | token _ _ _ shorter _ inductionHypothesis =>
    rw [List.length_cons]
    omega

/-- A space before the first token changes nothing. -/
theorem Scans.space {before last : Lexer} {kinds : List TokenKind} {rest : List UInt8}
    (source : before.src = byte ' ' :: rest) (nonempty : kinds ≠ [])
    (scans : Scans before.step kinds last) : Scans before kinds last := by
  have same : skipped before = skipped before.step := by
    rw [skipped, source]
    show skipSpaces rest (before.pos + 1) before.line (before.col + 1) =
      skipSpaces before.src.tail _ _ _
    rw [source]
    rfl
  cases scans with
  | done => exact absurd rfl nonempty
  | token starts notComment read shorter after =>
    refine .token (by rw [same]; exact starts) notComment (by rw [same]; exact read) ?_ after
    have length : before.step.src.length ≤ before.src.length := by
      rw [step, source]
      exact Nat.le_succ _
    omega

/-- Skipping spaces where no comment starts after them. -/
theorem skipWsAndComments_run {lexer : Lexer}
    (noComment : (skipped lexer).src.head? ≠ some (byte ';')) :
    skipWsAndComments lexer = .ok () (skipped lexer) := by
  rw [skipWsAndComments, get_bind_run, skipWsAndCommentsLoop]
  refine (modify_bind_run _ _ lexer).trans ?_
  have looks : ∀ next : Option UInt8 → LexM Unit,
      (peek >>= next) (skipped lexer) = next (skipped lexer).src.head? (skipped lexer) :=
    fun _ => rfl
  refine (looks _).trans ?_
  rw [beq_eq_false_iff_ne.mpr noComment]
  rfl

/-- A text that is read to its end is tokenized. -/
theorem tokenizeLoop_of_scans {limit : Nat} {before last : Lexer} {kinds : List TokenKind}
    (scans : Scans before kinds last) (ends : (skipped last).src = []) :
    ∀ (fuel : Nat) (tokens : List Token), before.src.length < fuel →
      tokens.length + kinds.length ≤ limit →
      ∃ read eof after,
        tokenizeLoop limit fuel tokens before = .ok (tokens ++ read ++ [eof]) after ∧
        read.map (·.kind) = kinds ∧ eof.kind = .eof := by
  induction scans with
  | done lexer =>
    intro fuel tokens enough _
    obtain ⟨less, rfl⟩ := Nat.exists_eq_add_one_of_ne_zero (Nat.ne_zero_of_lt enough)
    have skips : skipWsAndComments lexer = .ok () (skipped lexer) :=
      skipWsAndComments_run (by rw [ends]; exact fun same => by cases same)
    refine ⟨[], (skipped lexer).token .eof, skipped lexer, ?_, rfl, rfl⟩
    rw [tokenizeLoop, bind_ok skips, get_bind_run, ends, List.append_nil]
    rfl
  | @token before next last tok kinds c tail starts notComment read shorter _ inductionHypothesis =>
    intro fuel tokens enough fits
    obtain ⟨less, rfl⟩ := Nat.exists_eq_add_one_of_ne_zero (Nat.ne_zero_of_lt enough)
    have skips : skipWsAndComments before = .ok () (skipped before) :=
      skipWsAndComments_run (by rw [starts]; exact fun same => notComment (Option.some.inj same))
    rw [List.length_cons] at fits
    obtain ⟨toks, eof, after, ran, areKinds, isEof⟩ := inductionHypothesis ends less
      (tokens ++ [tok]) (by omega) (by rw [List.length_append, List.length_singleton]; omega)
    refine ⟨tok :: toks, eof, after, ?_, by rw [List.map_cons, areKinds], isEof⟩
    have more : ¬ limit ≤ tokens.length := by omega
    rw [tokenizeLoop, bind_ok skips, get_bind_run, starts, List.isEmpty_cons, if_neg more]
    show (nextToken >>= fun tok => tokenizeLoop limit less (tokens ++ [tok])) (skipped before) = _
    rw [bind_ok read, ran, List.append_assoc tokens, List.singleton_append]

/-- A piece of a printed text is read as tokens of these kinds where it is delimited. -/
structure Piece (text : List Char) (kinds : List TokenKind) : Prop where
  reads : ∀ rest, Delimited rest → ∀ lexer : Lexer, lexer.At (text ++ rest) →
    ∃ last, last.At rest ∧ Scans lexer kinds last

/-- A text before which a word ends. -/
def Delimiting (text : List Char) : Prop := ∀ rest, Delimited rest → Delimited (text ++ rest)

theorem delimited_nil : Delimited [] := fun _ _ same => by cases same

theorem delimited_space (rest : List Char) : Delimited (' ' :: rest) :=
  fun _ _ same => .inl (List.cons.inj same).1.symm

theorem delimiting_nil : Delimiting [] := fun _ delimited => delimited

theorem delimiting_space (text : List Char) : Delimiting (' ' :: text) :=
  fun _ _ => delimited_space _

theorem delimiting_paren (text : List Char) : Delimiting (')' :: text) :=
  fun _ _ _ _ same => .inr (.inl (List.cons.inj same).1.symm)

theorem delimiting_bracket (text : List Char) : Delimiting (']' :: text) :=
  fun _ _ _ _ same => .inr (.inr (List.cons.inj same).1.symm)

theorem piece_nil : Piece [] [] := ⟨fun _ _ lexer here => ⟨lexer, here, .done lexer⟩⟩

theorem Piece.append {text text' : List Char} {kinds kinds' : List TokenKind}
    (first : Piece text kinds) (second : Piece text' kinds') (delimiting : Delimiting text') :
    Piece (text ++ text') (kinds ++ kinds') := by
  refine ⟨fun rest delimited lexer here => ?_⟩
  rw [List.append_assoc] at here
  obtain ⟨between, atSecond, scans⟩ := first.reads _ (delimiting rest delimited) lexer here
  obtain ⟨last, atRest, scans'⟩ := second.reads rest delimited between atSecond
  exact ⟨last, atRest, scans.trans scans'⟩

theorem Piece.space {text : List Char} {kinds : List TokenKind} (piece : Piece text kinds)
    (nonempty : kinds ≠ []) : Piece (' ' :: text) kinds := by
  refine ⟨fun rest delimited lexer here => ?_⟩
  obtain ⟨last, atRest, scans⟩ := piece.reads rest delimited lexer.step
    (At.step (c := ' ') here (by decide))
  exact ⟨last, atRest, scans.space (At.src_ascii (c := ' ') here (by decide)) nonempty⟩

/-- A character that can start a token: no space, and not the start of a comment. -/
def startsToken (c : Char) : Bool :=
  c != ' ' && c != '\t' && c != '\r' && c != '\n' && c != ';'

/-- A token of a text. -/
theorem ReadsToken.scans {follows : List Char → Prop} {c : Char} {text rest : List Char}
    {kind : TokenKind} (reads : ReadsToken follows (c :: text) kind) (starts : startsToken c = true)
    (follow : follows rest) {lexer : Lexer} (here : lexer.At (c :: text ++ rest)) :
    ∃ last, last.At rest ∧ Scans lexer [kind] last := by
  simp only [startsToken, Bool.and_eq_true, bne_iff_ne] at starts
  obtain ⟨⟨⟨⟨notSpace, notTab⟩, notReturn⟩, notNewline⟩, notSemicolon⟩ := starts
  obtain ⟨lead, tail, source, narrowLead, wideLead, _⟩ := At.head (c := c) here
  have notByte : ∀ d : Char, d.toNat < 128 → c ≠ d → lead ≠ byte d := fun d ascii different =>
    beq_eq_false_iff_ne.mp (lead_ne narrowLead wideLead ascii different)
  have skips : skipped lexer = lexer := by
    rw [skipped, source, skipSpaces_of_plain _ _ _ ⟨notByte _ (by decide) notSpace,
      notByte _ (by decide) notTab, notByte _ (by decide) notReturn,
      notByte _ (by decide) notNewline⟩, ← source]
  obtain ⟨tok, next, ran, rfl, there⟩ := reads rest follow lexer here
  refine ⟨next, there, .token (by rw [skips]; exact source) (notByte _ (by decide) notSemicolon)
    (by rw [skips]; exact ran) ?_ (.done next)⟩
  have width := List.length_pos_of_ne_nil (Utf8.encode_ne_nil c)
  rw [here, there, List.cons_append, Utf8.bytes_cons, Utf8.bytes_append, List.length_append,
    List.length_append]
  omega

/-- A token that ends where it ends may be delimited. -/
theorem ReadsToken.delimited {text : List Char} {kind : TokenKind}
    (reads : ReadsToken Anything text kind) : ReadsToken Delimited text kind :=
  fun rest _ => reads rest trivial

theorem ReadsToken.piece {c : Char} {text : List Char} {kind : TokenKind}
    (reads : ReadsToken Delimited (c :: text) kind) (starts : startsToken c = true) :
    Piece (c :: text) [kind] :=
  ⟨fun _ delimited _ here => reads.scans starts delimited here⟩

/-- An opening bracket before a piece. -/
theorem Piece.after {c : Char} {text : List Char} {kind : TokenKind} {kinds : List TokenKind}
    (piece : Piece text kinds) (reads : ReadsToken Anything [c] kind)
    (starts : startsToken c = true) : Piece (c :: text) (kind :: kinds) := by
  refine ⟨fun rest delimited lexer here => ?_⟩
  have here' : lexer.At ([c] ++ (text ++ rest)) := here
  obtain ⟨between, atText, scans⟩ := reads.scans starts trivial here'
  obtain ⟨last, atRest, scans'⟩ := piece.reads rest delimited between atText
  exact ⟨last, atRest, scans.trans scans'⟩

/-- A text that is one piece is tokenized to the kinds of the piece and the end. -/
theorem tokenizeLoop_of_piece {limit : Nat} {text : List Char} {kinds : List TokenKind}
    (piece : Piece text kinds) (fits : kinds.length ≤ limit) {lexer : Lexer}
    (here : lexer.At text) : ∃ tokens eof after,
      tokenizeLoop limit (lexer.src.length + 1) [] lexer = .ok (tokens ++ [eof]) after ∧
        tokens.map (·.kind) = kinds ∧ eof.kind = .eof := by
  obtain ⟨last, atEnd, scans⟩ := piece.reads [] delimited_nil lexer (by rwa [List.append_nil])
  have empty : last.src = [] := atEnd
  obtain ⟨tokens, eof, after, ran, areKinds, isEof⟩ := tokenizeLoop_of_scans scans
    (by rw [skipped, empty]; rfl) _ [] (Nat.lt_succ_self _) (by simpa using fits)
  exact ⟨tokens, eof, after, ran, areKinds, isEof⟩

end Lexer

end Factum
