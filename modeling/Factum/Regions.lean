/-
This file says where the tokens of a text lie.

The bytes of a text fall into regions: the blanks and comments between the tokens, and
the tokens, some of which go through a few regions of their own. A byte continues the
region that the bytes before it are in, or starts a new one, so the regions can be
followed from the start of the text byte by byte, without the lexer. A text that is
tokenized is laid out like this: each token starts where a byte that is no blank starts
a region, and the lexer walks over the token as long as the bytes continue it.
-/

import Mathlib.Data.List.TakeWhile
import Factum.Lexed

namespace Factum

open Stateful

namespace Lexer

/-- The byte that ends a line. -/
def newline : UInt8 := byte '\n'

/-! ### Regions -/

/-- What the bytes of a text are part of. -/
inductive Region where
  /-- A blank, a bracket, or the last byte of a token. -/
  | gap
  | comment
  | string
  /-- A string, after a backslash. -/
  | escape
  | uri
  /-- A number sign. -/
  | hash
  /-- The rest of a `#date(...)` or a `#dur(...)`. -/
  | form
  /-- A variable or a keyword. -/
  | name
  | entity
  /-- A minus sign that starts a token. -/
  | dash
  /-- A number, before its point. -/
  | whole
  /-- A number, from its point on. -/
  | fraction
  | symbol
deriving DecidableEq, Repr

/-- A region of a number. -/
def Region.isNumber : Region → Bool
  | .whole | .fraction => true
  | _ => false

/-- The region that a byte starts. -/
def opening (c : UInt8) : Region :=
  if c == byte ';' then .comment
  else if c == byte '"' then .string
  else if c == byte '<' then .uri
  else if c == byte '#' then .hash
  else if c == byte '?' || c == byte ':' then .name
  else if c == byte '@' then .entity
  else if isAsciiDigit c then .whole
  else if c == byte '-' then .dash
  else if isSymbolByte c then .symbol
  else .gap

/-- The region that a byte is in which continues the one before it, if it does. -/
def within : Region → UInt8 → Option Region
  | .gap, _ => none
  | .comment, c => if c != newline then some .comment else none
  | .string, c =>
    if c == byte '"' then some .gap
    else if c == byte '\\' then some .escape
    else some .string
  | .escape, _ => some .string
  | .uri, c => if c == byte '>' then some .gap else some .uri
  | .hash, c => if c == byte 't' || c == byte 'f' then some .gap else some .form
  | .form, c => if c != byte ')' then some .form else some .gap
  | .name, c => if isNameByte c then some .name else none
  | .entity, c => if isEntityByte c then some .entity else none
  | .dash, c =>
    if isAsciiDigit c then some .whole
    else if isSymbolByte c then some .symbol
    else none
  | .whole, c =>
    if isAsciiDigit c then some .whole
    else if c == byte '.' then some .fraction
    else none
  | .fraction, c => if isAsciiDigit c then some .fraction else none
  | .symbol, c => if isSymbolByte c then some .symbol else none

/-- The region after one more byte. -/
def next (region : Region) (c : UInt8) : Region := (within region c).getD (opening c)

/-- A byte that is between the tokens, or starts a comment there. -/
def isBlank (c : UInt8) : Bool :=
  c == byte ' ' || c == byte '\t' || c == byte '\r' || c == newline || c == byte ';'

/-- A token starts with this byte. -/
def starts (region : Region) (c : UInt8) : Bool := (within region c).isNone && !isBlank c

/-- The region is not continued by what follows. -/
def Closed (region : Region) (rest : List UInt8) : Prop :=
  ∀ c ∈ rest.head?, within region c = none

theorem closed_nil (region : Region) : Closed region [] := fun _ member => by cases member

theorem closed_gap (rest : List UInt8) : Closed .gap rest := fun _ _ => rfl

theorem closed_cons {region : Region} {c : UInt8} {rest : List UInt8}
    (stops : within region c = none) : Closed region (c :: rest) := by
  intro d member
  rw [List.head?_cons, Option.mem_some_iff] at member
  rw [← member, stops]

/-! ### Walking over a token -/

/-- The lexer goes byte by byte over what continues a region. -/
inductive Walks : Region → Lexer → Region → Lexer → Prop
  | stay (region : Region) (lexer : Lexer) : Walks region lexer region lexer
  | past {region region' last : Region} {c : UInt8} {lexer after : Lexer} :
      lexer.src.head? = some c → within region c = some region' →
      Walks region' lexer.step last after → Walks region lexer last after

theorem Walks.trans {region region' last : Region} {lexer between after : Lexer}
    (here : Walks region lexer region' between) (there : Walks region' between last after) :
    Walks region lexer last after := by
  induction here with
  | stay => exact there
  | past isNext continues _ inductionHypothesis =>
    exact .past isNext continues (inductionHypothesis there)

theorem Walks.one {region region' : Region} {c : UInt8} {lexer : Lexer}
    (isNext : lexer.src.head? = some c) (continues : within region c = some region') :
    Walks region lexer region' lexer.step :=
  .past isNext continues (.stay _ _)

theorem step_pos (lexer : Lexer) : lexer.step.pos = lexer.pos + 1 := rfl

theorem skip_succ (lexer : Lexer) (count : Nat) :
    lexer.skip (count + 1) = lexer.step.skip count := by
  simp only [skip, step, List.drop_tail, Nat.add_assoc, Nat.add_comm 1]

/-- All bytes of some kind continue the region. -/
theorem walks_skip {region : Region} : ∀ (chunk : List UInt8) {rest : List UInt8}
    {lexer : Lexer}, (∀ c ∈ chunk, within region c = some region) → lexer.src = chunk ++ rest →
      Walks region lexer region (lexer.skip chunk.length) := by
  intro chunk
  induction chunk with
  | nil =>
    intro rest lexer _ _
    exact .stay region lexer
  | cons c chunk inductionHypothesis =>
    intro rest lexer continue_ source
    rw [List.length_cons, skip_succ]
    have isTail : lexer.step.src = chunk ++ rest := by
      rw [step, source]
      rfl
    refine .past (by rw [source]; rfl) (continue_ c List.mem_cons_self) ?_
    exact inductionHypothesis (fun d member => continue_ d (List.mem_cons_of_mem c member)) isTail

theorem walks_takeWhile {region : Region} {is : UInt8 → Bool}
    (continues : ∀ c, is c = true → within region c = some region) (lexer : Lexer) :
    Walks region lexer region (lexer.skip (lexer.src.takeWhile is).length) :=
  walks_skip (lexer.src.takeWhile is)
    (fun c member => continues c (List.mem_takeWhile_imp member))
    (List.takeWhile_append_dropWhile (p := is)).symm

theorem drop_takeWhile (is : UInt8 → Bool) (bytes : List UInt8) :
    bytes.drop (bytes.takeWhile is).length = bytes.dropWhile is := by
  calc bytes.drop (bytes.takeWhile is).length
      = (bytes.takeWhile is ++ bytes.dropWhile is).drop (bytes.takeWhile is).length := by
        rw [List.takeWhile_append_dropWhile]
    _ = bytes.dropWhile is := List.drop_left

/-! ### Characters and words -/

/-- The region is continued by all bytes from 128 on. -/
def TakesWide (region : Region) : Prop := ∀ c : UInt8, 128 ≤ c.toNat → within region c = some region

/-- A character is read over the bytes after its first one, which are all from 128 on. -/
theorem walks_readChar {region : Region} {c : UInt8} {tail : List UInt8} {ch : Char}
    {lexer after : Lexer} (source : lexer.src = c :: tail)
    (takesWide : 128 ≤ c.toNat → TakesWide region) (ran : readChar c lexer = .ok ch after) :
    Walks region lexer.step region after := by
  unfold readChar at ran
  split_ifs at ran with isWide
  · have wide : 128 ≤ c.toNat := UInt8.le_iff_toNat_le.mp isWide
    obtain ⟨wideChar, sequence, isSequence, announced, decoded, rfl⟩ :=
      readUtf8Char_ok wide source ran
    have high := fun d => wide_of_mem_sequence (d := d) announced decoded wideChar
    rw [List.length_cons, skip_succ]
    have isTail : lexer.step.src = sequence ++ (lexer.skip (c :: sequence).length).src := by
      rw [step, source, List.tail_cons, ← isSequence]
    exact walks_skip sequence (fun d member => takesWide wide d (high d member)) isTail
  · cases ran
    exact .stay region lexer.step

/-- A region of the bytes of a word. -/
def OfWord (accepts : UInt8 → Bool) (region : Region) : Prop :=
  ∀ c, within region c = if accepts c then some region else none

theorem OfWord.takesWide {accepts : UInt8 → Bool} {region : Region}
    (ofWord : OfWord accepts region) (wide : Wide accepts) : TakesWide region :=
  fun c isWide => by rw [ofWord, if_pos (wide c isWide)]

/-- A word is read to the end of its region. -/
theorem walks_lexWordLoop {accepts : UInt8 → Bool} {region : Region}
    (ofWord : OfWord accepts region) (wide : Wide accepts) : ∀ (fuel : Nat)
    {buf word : List Char} {lexer after : Lexer},
      lexWordLoop accepts fuel buf lexer = .ok word after →
      Walks region lexer region after ∧ Closed region after.src := by
  intro fuel
  induction fuel with
  | zero =>
    intro buf word lexer after ran
    cases ran
  | succ fuel inductionHypothesis =>
    intro buf word lexer after ran
    rw [lexWordLoop, peek_bind_run] at ran
    cases source : lexer.src with
    | nil =>
      rw [source] at ran
      cases ran
      exact ⟨.stay _ _, by rw [source]; exact closed_nil region⟩
    | cons c tail =>
      rw [source, List.head?_cons] at ran
      dsimp only at ran
      split_ifs at ran with accepted
      · obtain ⟨ch, between, read, ran⟩ := bind_eq_ok.mp ran
        obtain ⟨walks, closed⟩ := inductionHypothesis ran
        refine ⟨.past (by rw [source]; rfl) (by rw [ofWord, if_pos accepted]) ?_, closed⟩
        exact (walks_readChar source (fun _ => ofWord.takesWide wide) read).trans walks
      · cases ran
        refine ⟨.stay _ _, ?_⟩
        rw [source]
        exact closed_cons (by rw [ofWord, if_neg accepted])

theorem ofWord_name : OfWord isNameByte .name := fun _ => rfl

theorem ofWord_entity : OfWord isEntityByte .entity := fun _ => rfl

theorem ofWord_symbol : OfWord isSymbolByte .symbol := fun _ => rfl

/-! ### Quoted forms -/

/-- A string is read to its closing quote. -/
theorem walks_lexStringLoop {start : Lexer} : ∀ (fuel : Nat) {buf text : List Char}
    {lexer after : Lexer}, lexStringLoop start fuel buf lexer = .ok text after →
      Walks .string lexer .gap after := by
  intro fuel
  induction fuel with
  | zero =>
    intro buf text lexer after ran
    cases ran
  | succ fuel inductionHypothesis =>
    intro buf text lexer after ran
    rw [lexStringLoop, peek_bind_run] at ran
    cases source : lexer.src with
    | nil =>
      rw [source] at ran
      cases ran
    | cons c tail =>
      have isNext : lexer.src.head? = some c := by rw [source, List.head?_cons]
      rw [isNext] at ran
      dsimp only at ran
      split_ifs at ran with isQuote isBackslash
      · cases ran
        exact .one isNext (if_pos isQuote)
      · have escape : within .string c = some .escape := by
          rw [within, if_neg isQuote, if_pos isBackslash]
        rw [advance_bind_run, peek_bind_run] at ran
        cases isEscaped : lexer.step.src.head? with
        | none =>
          rw [isEscaped] at ran
          cases ran
        | some escaped =>
          rw [isEscaped] at ran
          dsimp only at ran
          rw [advance_bind_run] at ran
          exact .past isNext escape (.past isEscaped rfl (inductionHypothesis ran))
      · obtain ⟨ch, between, read, ran⟩ := bind_eq_ok.mp ran
        have wide : TakesWide .string := by
          intro d isWide
          have notQuote : d ≠ byte '"' := by
            rintro rfl
            exact absurd isWide (by decide)
          have notBackslash : d ≠ byte '\\' := by
            rintro rfl
            exact absurd isWide (by decide)
          simp only [within, beq_iff_eq, if_neg notQuote, if_neg notBackslash]
        refine .past isNext (by rw [within, if_neg isQuote, if_neg isBackslash]) ?_
        exact (walks_readChar source (fun _ => wide) read).trans (inductionHypothesis ran)

/-- A URI is read to its closing bracket. -/
theorem walks_lexUriLoop {start : Lexer} : ∀ (fuel : Nat) {buf text : List Char}
    {lexer after : Lexer}, lexUriLoop start fuel buf lexer = .ok text after →
      Walks .uri lexer .gap after := by
  intro fuel
  induction fuel with
  | zero =>
    intro buf text lexer after ran
    cases ran
  | succ fuel inductionHypothesis =>
    intro buf text lexer after ran
    rw [lexUriLoop, peek_bind_run] at ran
    cases source : lexer.src with
    | nil =>
      rw [source] at ran
      cases ran
    | cons c tail =>
      have isNext : lexer.src.head? = some c := by rw [source, List.head?_cons]
      rw [isNext] at ran
      dsimp only at ran
      split_ifs at ran with isBracket
      · cases ran
        exact .one isNext (if_pos isBracket)
      · obtain ⟨ch, between, read, ran⟩ := bind_eq_ok.mp ran
        have wide : TakesWide .uri := by
          intro d isWide
          have notBracket : d ≠ byte '>' := by
            rintro rfl
            exact absurd isWide (by decide)
          simp only [within, beq_iff_eq, if_neg notBracket]
        refine .past isNext (if_neg isBracket) ?_
        exact (walks_readChar source (fun _ => wide) read).trans (inductionHypothesis ran)

theorem walks_expectBytes {start : Lexer} {message : String} {region : Region} :
    ∀ (letters : List UInt8) {lexer after : Lexer},
      (∀ c ∈ letters, within region c = some region) →
      expectBytes start message letters lexer = .ok () after → Walks region lexer region after := by
  intro letters
  induction letters with
  | nil =>
    intro lexer after _ ran
    cases ran
    exact .stay region lexer
  | cons c letters inductionHypothesis =>
    intro lexer after continue_ ran
    rw [expectBytes, peek_bind_run] at ran
    split_ifs at ran with isOther
    · cases ran
    · rw [bne_iff_ne, not_not] at isOther
      refine .past isOther (continue_ c List.mem_cons_self) ?_
      exact inductionHypothesis (fun d member => continue_ d (List.mem_cons_of_mem c member)) ran

/-- The letters and the opening parenthesis of a `#date(...)` or a `#dur(...)`. -/
theorem walks_hashOpening {start : Lexer} {letters : List UInt8} {expected : String}
    {lexer named : Lexer} (isNext : lexer.src.head? = some (byte 'd'))
    (inForm : byte ')' ∉ letters)
    (lettersRead : expectBytes start expected letters lexer.step = .ok () named)
    (isOpen : named.src.head? = some (byte '(')) : Walks .hash lexer .form named.step := by
  refine .past isNext rfl ((walks_expectBytes letters (fun c member => ?_) lettersRead).trans ?_)
  · have notClosing : c ≠ byte ')' := fun same => inForm (same ▸ member)
    exact if_pos (bne_iff_ne.mpr notClosing)
  · exact .one isOpen (by decide)

/-- A `#date(...)` or a `#dur(...)` is read to its closing parenthesis, or to the end. -/
theorem walks_lexHashForm {start : Lexer} {letters : List UInt8} {expected afterHash : String}
    {kind : String → TokenKind} {tok : Token} {lexer after : Lexer}
    (isNext : lexer.src.head? = some (byte 'd')) (inForm : byte ')' ∉ letters)
    (ran : lexHashForm start letters expected afterHash kind lexer = .ok tok after) :
    ∃ text region, tok = start.token (kind text) ∧ region.isNumber = false ∧
      Walks .hash lexer region after ∧ Closed region after.src := by
  have continues : ∀ c, (c != byte ')') = true → within .form c = some .form :=
    fun c other => if_pos other
  rw [lexHashForm, advance_bind_run] at ran
  obtain ⟨_, named, lettersRead, ran⟩ := bind_eq_ok.mp ran
  rw [peek_bind_run] at ran
  split_ifs at ran with isOther
  · cases ran
  · rw [bne_iff_ne, not_not] at isOther
    dsimp only at ran
    rw [advance_bind_run, get_bind_run] at ran
    have toContent := walks_hashOpening isNext inForm lettersRead isOther
    have walks := toContent.trans (walks_takeWhile continues named.step)
    have rest : (named.step.skip (named.step.src.takeWhile (· != byte ')')).length).src =
        named.step.src.dropWhile (· != byte ')') := drop_takeWhile _ _
    have ran : (peek >>= fun closing => if closing == some (byte ')') then
          advance >>= fun _ => pure (start.token (kind (String.ofList
            ((named.step.src.takeWhile (· != byte ')')).map latin1))))
        else pure (start.token (kind (String.ofList
          ((named.step.src.takeWhile (· != byte ')')).map latin1)))) : LexM Token)
        (named.step.skip (named.step.src.takeWhile (· != byte ')')).length) = .ok tok after := ran
    rw [peek_bind_run] at ran
    split_ifs at ran with isClosing
    · cases ran
      exact ⟨_, .gap, rfl, rfl, walks.trans (.one (beq_iff_eq.mp isClosing) rfl), closed_gap _⟩
    · cases ran
      refine ⟨_, .form, rfl, rfl, walks, fun c isNext => ?_⟩
      have other := List.head?_dropWhile_not (· != byte ')') named.step.src
      rw [rest] at isClosing isNext
      rw [Option.mem_def.mp isNext] at isClosing other
      have isBracket : c = byte ')' := bne_eq_false_iff_eq.mp other
      exact absurd (by rw [isBracket]; rfl) isClosing

/-! ### Tokens -/

/-- The lexer reads this token over the bytes that continue the region of its first one. -/
structure Lexeme (lexer : Lexer) (tok : Token) (region : Region) (after : Lexer) : Prop where
  placed : tok = lexer.token tok.kind
  notEof : tok.kind ≠ .eof
  walks : ∀ c ∈ lexer.src.head?, Walks (opening c) lexer.step region after
  closed : Closed region after.src
  ofNumber : ∀ text, tok.kind = .number text → region.isNumber = true ∧
    after.pos = lexer.pos + text.length
  number : region.isNumber = true → ∃ text, tok.kind = .number text

/-- A token that is no number. -/
theorem Lexeme.ofOther {lexer after : Lexer} {kind : TokenKind} {region : Region}
    (notEof : kind ≠ .eof) (notNumber : ∀ text, kind ≠ .number text)
    (outside : region.isNumber = false)
    (walks : ∀ c ∈ lexer.src.head?, Walks (opening c) lexer.step region after)
    (closed : Closed region after.src) : Lexeme lexer (lexer.token kind) region after where
  placed := rfl
  notEof := notEof
  walks := walks
  closed := closed
  ofNumber text isNumber := absurd isNumber (notNumber text)
  number inside := by
    rw [outside] at inside
    cases inside

theorem lexeme_lexSigil {accepts : UInt8 → Bool} {kind : String → TokenKind} {message : String}
    {region : Region} {sigil : UInt8} {lexer after : Lexer} {tok : Token}
    (isNext : lexer.src.head? = some sigil) (opens : opening sigil = region)
    (ofWord : OfWord accepts region) (wide : Wide accepts) (outside : region.isNumber = false)
    (notEof : ∀ text, kind text ≠ .eof) (notNumber : ∀ text text', kind text ≠ .number text')
    (ran : lexSigil accepts kind message lexer lexer = .ok tok after) :
    ∃ region, Lexeme lexer tok region after := by
  rw [lexSigil, advance_bind_run] at ran
  obtain ⟨word, between, read, ran⟩ := bind_eq_ok.mp ran
  obtain ⟨walks, closed⟩ := walks_lexWordLoop ofWord wide _ read
  split_ifs at ran
  · cases ran
  · cases ran
    refine ⟨region, .ofOther (notEof _) (notNumber _) outside (fun c isFirst => ?_) closed⟩
    obtain rfl : sigil = c := Option.some.inj (isNext.symm.trans isFirst)
    rwa [opens]

theorem lexeme_lexString {lexer after : Lexer} {tok : Token}
    (isNext : lexer.src.head? = some (byte '"')) (ran : lexString lexer lexer = .ok tok after) :
    ∃ region, Lexeme lexer tok region after := by
  rw [lexString, advance_bind_run, get_bind_run] at ran
  obtain ⟨text, between, read, ran⟩ := bind_eq_ok.mp ran
  cases ran
  refine ⟨.gap, .ofOther (by simp) (by simp) rfl (fun c isFirst => ?_) (closed_gap _)⟩
  obtain rfl := Option.some.inj (isNext.symm.trans isFirst)
  exact walks_lexStringLoop _ read

theorem lexeme_lexUri {lexer after : Lexer} {tok : Token}
    (isNext : lexer.src.head? = some (byte '<')) (ran : lexUri lexer lexer = .ok tok after) :
    ∃ region, Lexeme lexer tok region after := by
  rw [lexUri, advance_bind_run, get_bind_run] at ran
  obtain ⟨text, between, read, ran⟩ := bind_eq_ok.mp ran
  cases ran
  refine ⟨.gap, .ofOther (by simp) (by simp) rfl (fun c isFirst => ?_) (closed_gap _)⟩
  obtain rfl := Option.some.inj (isNext.symm.trans isFirst)
  exact walks_lexUriLoop _ read

theorem lexeme_lexHashPrefixed {lexer after : Lexer} {tok : Token}
    (isNext : lexer.src.head? = some (byte '#'))
    (ran : lexHashPrefixed lexer lexer = .ok tok after) :
    ∃ region, Lexeme lexer tok region after := by
  have lexeme : ∀ {kind : TokenKind} {region : Region} {after : Lexer}, kind ≠ .eof →
      (∀ text, kind ≠ .number text) → region.isNumber = false →
      Walks .hash lexer.step region after → Closed region after.src →
      ∃ region, Lexeme lexer (lexer.token kind) region after := by
    intro kind region after notEof notNumber outside walks closed
    refine ⟨region, .ofOther notEof notNumber outside (fun c isFirst => ?_) closed⟩
    obtain rfl := Option.some.inj (isNext.symm.trans isFirst)
    exact walks
  rw [lexHashPrefixed, advance_bind_run, peek_bind_run, peekAt_bind_run] at ran
  split_ifs at ran with isTrue isFalse isDate isDuration
  · cases ran
    exact lexeme (by simp) (by simp) rfl (.one (beq_iff_eq.mp isTrue) rfl) (closed_gap _)
  · cases ran
    exact lexeme (by simp) (by simp) rfl (.one (beq_iff_eq.mp isFalse) rfl) (closed_gap _)
  · rw [Bool.and_eq_true] at isDate
    obtain ⟨text, region, rfl, outside, walks, closed⟩ :=
      walks_lexHashForm (beq_iff_eq.mp isDate.1) (by decide) ran
    exact lexeme (by simp) (by simp) outside walks closed
  · rw [Bool.and_eq_true] at isDuration
    obtain ⟨text, region, rfl, outside, walks, closed⟩ :=
      walks_lexHashForm (beq_iff_eq.mp isDuration.1) (by decide) ran
    exact lexeme (by simp) (by simp) outside walks closed
  · cases ran

theorem opening_symbol {c : UInt8} (isSymbol : isSymbolByte c = true)
    (notDigit : isAsciiDigit c = false) :
    opening c = if c == byte '-' then .dash else .symbol := by
  have symbol := isSymbol
  unfold isSymbolByte at isSymbol
  simp only [Bool.not_eq_true', Bool.or_eq_false_iff] at isSymbol
  simp [opening, isSymbol, notDigit, symbol]

/-- After a minus sign, a symbol is read if no digit is next. -/
theorem walks_dash {lexer after : Lexer} {fuel : Nat} {buf word : List Char}
    (notDigit : (lexer.src.head?.map isAsciiDigit).getD false = false)
    (ran : lexWordLoop isSymbolByte fuel buf lexer = .ok word after) :
    ∃ region : Region, region.isNumber = false ∧ Walks .dash lexer region after ∧
      Closed region after.src := by
  cases fuel with
  | zero => cases ran
  | succ fuel =>
    rw [lexWordLoop, peek_bind_run] at ran
    cases source : lexer.src with
    | nil =>
      rw [source] at ran
      cases ran
      exact ⟨.dash, rfl, .stay _ _, by rw [source]; exact closed_nil _⟩
    | cons c tail =>
      rw [source] at notDigit ran
      have notDigit : ¬ isAsciiDigit c = true := Bool.eq_false_iff.mp notDigit
      rw [List.head?_cons] at ran
      dsimp only at ran
      have takesWide := ofWord_symbol.takesWide wide_isSymbolByte
      split_ifs at ran with isSymbol
      · obtain ⟨ch, between, first, ran⟩ := bind_eq_ok.mp ran
        obtain ⟨walks, closed⟩ := walks_lexWordLoop ofWord_symbol wide_isSymbolByte _ ran
        have continues : within .dash c = some .symbol := by
          rw [within, if_neg notDigit, if_pos isSymbol]
        refine ⟨.symbol, rfl, .past (by rw [source]; rfl) continues ?_, closed⟩
        exact (walks_readChar source (fun _ => takesWide) first).trans walks
      · cases ran
        refine ⟨.dash, rfl, .stay _ _, ?_⟩
        rw [source]
        exact closed_cons (by rw [within, if_neg notDigit, if_neg isSymbol])

theorem lexeme_lexSymbol {lexer after : Lexer} {tok : Token} {c : UInt8} {tail : List UInt8}
    (source : lexer.src = c :: tail) (notDigit : isAsciiDigit c = false)
    (notSigned : (c == byte '-' && (tail.head?.map isAsciiDigit).getD false) = false)
    (ran : lexSymbol lexer lexer = .ok tok after) : ∃ region, Lexeme lexer tok region after := by
  obtain ⟨word, between, read, ran⟩ := bind_eq_ok.mp ran
  split_ifs at ran with isEmpty
  · obtain ⟨_, _, _, ran⟩ := bind_eq_ok.mp ran
    cases ran
  · cases ran
    suffices walks : ∃ region, region.isNumber = false ∧
        Walks (opening c) lexer.step region after ∧ Closed region after.src by
      obtain ⟨region, outside, walks, closed⟩ := walks
      refine ⟨region, .ofOther nofun nofun outside (fun d isFirst => ?_) closed⟩
      rw [source, List.head?_cons, Option.mem_some_iff] at isFirst
      rwa [← isFirst]
    rw [lexWord, get_bind_run, lexWordLoop, peek_bind_run, source, List.head?_cons] at read
    dsimp only at read
    split_ifs at read with isSymbol
    · rw [opening_symbol isSymbol notDigit]
      obtain ⟨ch, between, first, read⟩ := bind_eq_ok.mp read
      have takesWide := ofWord_symbol.takesWide wide_isSymbolByte
      split_ifs with isDash
      · obtain rfl := beq_iff_eq.mp isDash
        rw [readChar, if_neg (by decide)] at first
        cases first
        have isTail : lexer.step.src = tail := by rw [step, source, List.tail_cons]
        exact walks_dash (by simpa [isTail] using notSigned) read
      · obtain ⟨walks, closed⟩ := walks_lexWordLoop ofWord_symbol wide_isSymbolByte _ read
        exact ⟨.symbol, rfl, (walks_readChar source (fun _ => takesWide) first).trans walks, closed⟩
    · cases read
      exact absurd rfl isEmpty

/-- Digits continue a region of a number, up to the first byte that is none. -/
theorem walks_lexDigits {region : Region}
    (digits : ∀ c, isAsciiDigit c = true → within region c = some region) {lexer after : Lexer}
    {read : List Char} (ran : lexDigits lexer = .ok read after) :
    Walks region lexer region after ∧ after.pos = lexer.pos + read.length ∧
      ∀ c ∈ after.src.head?, isAsciiDigit c = false := by
  cases ran
  have rest : (lexer.skip (lexer.src.takeWhile isAsciiDigit).length).src =
      lexer.src.dropWhile isAsciiDigit := drop_takeWhile _ _
  refine ⟨walks_takeWhile digits lexer, by rw [List.length_map]; rfl, fun c isNext => ?_⟩
  have other := List.head?_dropWhile_not isAsciiDigit lexer.src
  rw [rest, Option.mem_def] at isNext
  rw [isNext] at other
  exact other

/-- The point of a number and the digits after it, if there are any. -/
theorem walks_lexFraction {lexer after : Lexer} {read : List Char}
    (ends : ∀ c ∈ lexer.src.head?, isAsciiDigit c = false)
    (ran : lexFraction lexer = .ok read after) :
    ∃ region, region.isNumber = true ∧ Walks .whole lexer region after ∧
      Closed region after.src ∧ after.pos = lexer.pos + read.length := by
  have points : ∀ c, isAsciiDigit c = true → within .fraction c = some .fraction :=
    fun c digit => if_pos digit
  rw [lexFraction, peek_bind_run] at ran
  split_ifs at ran with isPoint
  · rw [advance_bind_run] at ran
    obtain ⟨digits, between, read, ran⟩ := bind_eq_ok.mp ran
    obtain ⟨walks, length, ends'⟩ := walks_lexDigits points read
    cases ran
    refine ⟨.fraction, rfl, .past (beq_iff_eq.mp isPoint) rfl walks, fun c isNext => ?_, ?_⟩
    · rw [within, ends' c isNext]
      rfl
    · rw [length, List.length_cons, step_pos]
      omega
  · cases ran
    refine ⟨.whole, rfl, .stay _ _, fun c isNext => ?_, rfl⟩
    have notPoint : ¬ (c == byte '.') = true := by
      intro same
      rw [beq_iff_eq] at same
      rw [Option.mem_def, same] at isNext
      exact isPoint (by rw [isNext]; rfl)
    rw [within, if_neg notPoint, ends c isNext]
    rfl

theorem opening_digit {c : UInt8} (digit : isAsciiDigit c = true) : opening c = .whole := by
  have other : ∀ d, isAsciiDigit d = false → (c == d) = false := by
    intro d notDigit
    rw [beq_eq_false_iff_ne]
    rintro rfl
    rw [digit] at notDigit
    cases notDigit
  simp only [opening, digit, other (byte ';') (by decide), other (byte '"') (by decide),
    other (byte '<') (by decide), other (byte '#') (by decide), other (byte '?') (by decide),
    other (byte ':') (by decide), other (byte '@') (by decide)]
  rfl

theorem lexeme_lexNumber {lexer after : Lexer} {tok : Token} {c : UInt8} {tail : List UInt8}
    (source : lexer.src = c :: tail) (number : isAsciiDigit c = true ∨ c = byte '-' ∧
      (tail.head?.map isAsciiDigit).getD false = true)
    (ran : lexNumber lexer lexer = .ok tok after) : ∃ region, Lexeme lexer tok region after := by
  have wholes : ∀ c, isAsciiDigit c = true → within .whole c = some .whole :=
    fun c digit => if_pos digit
  obtain ⟨sign, signed, readSign, ran⟩ := bind_eq_ok.mp ran
  obtain ⟨whole, wholeRead, readWhole, ran⟩ := bind_eq_ok.mp ran
  obtain ⟨fraction, end_, readFraction, ran⟩ := bind_eq_ok.mp ran
  rw [peek_bind_run, peekAt_bind_run] at ran
  split_ifs at ran
  · cases ran
  · cases ran
    obtain ⟨fromWhole, wholeLength, ends⟩ := walks_lexDigits wholes readWhole
    obtain ⟨region, inside, fromFraction, closed, fractionLength⟩ :=
      walks_lexFraction ends readFraction
    suffices walks : Walks (opening c) lexer.step .whole wholeRead ∧
        wholeRead.pos = lexer.pos + (sign ++ whole).length by
      refine ⟨region, rfl, nofun, fun d isFirst => ?_, closed, fun text isText => ⟨inside, ?_⟩,
        fun _ => ⟨_, rfl⟩⟩
      · rw [source, List.head?_cons, Option.mem_some_iff] at isFirst
        rw [← isFirst]
        exact walks.1.trans fromFraction
      · cases isText
        simp only [fractionLength, walks.2, String.length_ofList, List.length_append]
        omega
    -- the first digit is part of the number
    have afterFirst : ∀ {here : Lexer} {d : UInt8}, here.src.head? = some d →
        isAsciiDigit d = true → Walks .whole here .whole wholeRead →
        Walks .whole here.step .whole wholeRead := by
      intro here d isNext digit walks
      cases walks with
      | stay =>
        rw [ends d isNext] at digit
        cases digit
      | past isNext' continues walks =>
        obtain rfl := Option.some.inj (isNext.symm.trans isNext')
        obtain rfl := Option.some.inj ((wholes d digit).symm.trans continues)
        exact walks
    rw [lexSign, peek_bind_run, source, List.head?_cons] at readSign
    rcases number with digit | ⟨rfl, digit⟩
    · have notDash : ¬ (some c == some (byte '-')) = true := by
        intro same
        obtain rfl := Option.some.inj (beq_iff_eq.mp same)
        exact absurd digit (by decide)
      rw [if_neg notDash] at readSign
      cases readSign
      rw [opening_digit digit]
      exact ⟨afterFirst (by rw [source]; rfl) digit fromWhole, wholeLength⟩
    · rw [if_pos (beq_self_eq_true _), advance_bind_run] at readSign
      cases readSign
      have isTail : lexer.step.src = tail := by rw [step, source, List.tail_cons]
      cases isFirst : tail.head? with
      | none =>
        rw [isFirst] at digit
        cases digit
      | some d =>
        rw [isFirst] at digit
        have digit : isAsciiDigit d = true := digit
        rw [← isTail] at isFirst
        refine ⟨.past isFirst (if_pos digit) (afterFirst isFirst digit fromWhole), ?_⟩
        rw [wholeLength, List.length_append, List.length_singleton, step_pos]
        omega

theorem lexeme_nextToken {lexer after : Lexer} {tok : Token} {c : UInt8} {tail : List UInt8}
    (source : lexer.src = c :: tail) (ran : nextToken lexer = .ok tok after) :
    ∃ region, Lexeme lexer tok region after := by
  have isNext : lexer.src.head? = some c := by rw [source, List.head?_cons]
  have bracket : ∀ kind : TokenKind, kind ≠ .eof → (∀ text, kind ≠ .number text) →
      opening c = .gap →
      (advance >>= fun _ => pure (lexer.token kind) : LexM Token) lexer = .ok tok after →
      ∃ region, Lexeme lexer tok region after := by
    intro kind notEof notNumber opens ran
    cases ran
    refine ⟨.gap, .ofOther notEof notNumber rfl (fun d isFirst => ?_) (closed_gap _)⟩
    obtain rfl := Option.some.inj (isNext.symm.trans isFirst)
    rw [opens]
    exact .stay _ _
  rw [nextToken_of_src source] at ran
  revert ran
  have opens : ∀ {d : UInt8} {region : Region}, opening d = region → (c == d) = true →
      opening c = region := fun opens same => by rwa [eq_of_beq same]
  refine byCases (fun same => bracket .lParen nofun nofun (opens rfl same)) fun _ => ?_
  refine byCases (fun same => bracket .rParen nofun nofun (opens rfl same)) fun _ => ?_
  refine byCases (fun same => bracket .lBracket nofun nofun (opens rfl same)) fun _ => ?_
  refine byCases (fun same => bracket .rBracket nofun nofun (opens rfl same)) fun _ => ?_
  refine byCases (fun same => lexeme_lexString (by rw [isNext, eq_of_beq same])) fun _ => ?_
  refine byCases (fun same => lexeme_lexSigil isNext (opens rfl same) ofWord_name
    wide_isNameByte rfl nofun nofun) fun _ => ?_
  refine byCases (fun same => lexeme_lexSigil isNext (opens rfl same) ofWord_name
    wide_isNameByte rfl nofun nofun) fun _ => ?_
  refine byCases (fun same => lexeme_lexUri (by rw [isNext, eq_of_beq same])) fun _ => ?_
  refine byCases (fun same => lexeme_lexSigil isNext (opens rfl same) ofWord_entity
    wide_isEntityByte rfl nofun nofun) fun _ => ?_
  refine byCases (fun same => lexeme_lexHashPrefixed (by rw [isNext, eq_of_beq same])) fun _ => ?_
  refine byCases (fun number => lexeme_lexNumber source ?_) fun notNumber => ?_
  · rwa [Bool.or_eq_true, Bool.and_eq_true, beq_iff_eq] at number
  · rw [Bool.not_eq_true, Bool.or_eq_false_iff] at notNumber
    exact lexeme_lexSymbol source notNumber.1 notNumber.2

/-! ### Blanks -/

/-- Move over a byte between the tokens. -/
def past (lexer : Lexer) (c : UInt8) : Lexer :=
  if c == newline then ⟨lexer.src.tail, lexer.pos + 1, lexer.line + 1, 1⟩ else lexer.step

theorem past_src (lexer : Lexer) (c : UInt8) : (lexer.past c).src = lexer.src.tail := by
  unfold past
  split_ifs <;> rfl

theorem past_pos (lexer : Lexer) (c : UInt8) : (lexer.past c).pos = lexer.pos + 1 := by
  unfold past
  split_ifs <;> rfl

/-- The lexer goes over blanks and comments. -/
inductive Skips : Region → Lexer → Region → Lexer → Prop
  | stay {region : Region} {lexer : Lexer} : Closed region lexer.src →
      Skips region lexer region lexer
  | past {region last : Region} {c : UInt8} {lexer after : Lexer} :
      lexer.src.head? = some c → within region c = none → isBlank c = true → c ≠ byte ';' →
      Skips .gap (lexer.past c) last after → Skips region lexer last after
  | comment {region last : Region} {lexer between after : Lexer} :
      lexer.src.head? = some (byte ';') → within region (byte ';') = none →
      Walks .comment lexer.step .comment between → Skips .comment between last after →
      Skips region lexer last after

theorem Skips.trans {region region' last : Region} {lexer between after : Lexer}
    (here : Skips region lexer region' between) (there : Skips region' between last after) :
    Skips region lexer last after := by
  induction here with
  | stay => exact there
  | past isNext starts blank notComment _ inductionHypothesis =>
    exact .past isNext starts blank notComment (inductionHypothesis there)
  | comment isNext starts walks _ inductionHypothesis =>
    exact .comment isNext starts walks (inductionHypothesis there)

theorem Skips.closed {region last : Region} {lexer after : Lexer}
    (skips : Skips region lexer last after) : Closed last after.src := by
  induction skips with
  | stay closed => exact closed
  | past _ _ _ _ _ inductionHypothesis => exact inductionHypothesis
  | comment _ _ _ _ inductionHypothesis => exact inductionHypothesis

theorem skips_skipSpaces : ∀ (src : List UInt8) (pos line col : Nat) {region : Region},
    Closed region src →
      ∃ last, Skips region ⟨src, pos, line, col⟩ last (skipSpaces src pos line col) ∧
      ∀ c ∈ (skipSpaces src pos line col).src.head?, isBlank c = true → c = byte ';' := by
  intro src
  induction src with
  | nil =>
    intro pos line col region closed
    exact ⟨region, .stay closed, fun _ member => by cases member⟩
  | cons c rest inductionHypothesis =>
    intro pos line col region closed
    have starts := closed c rfl
    rw [skipSpaces]
    split_ifs with isSpace isNewline
    · obtain ⟨last, skips, ends⟩ := inductionHypothesis (pos + 1) line (col + 1) (closed_gap rest)
      have blank : isBlank c = true ∧ c ≠ byte ';' ∧ c ≠ newline := by
        simp only [Bool.or_eq_true, beq_iff_eq] at isSpace
        rcases isSpace with (rfl | rfl) | rfl <;> decide
      refine ⟨last, .past rfl starts blank.1 blank.2.1 ?_, ends⟩
      rw [past, if_neg (by simpa using blank.2.2)]
      exact skips
    · obtain ⟨last, skips, ends⟩ := inductionHypothesis (pos + 1) (line + 1) 1 (closed_gap rest)
      obtain rfl := eq_of_beq isNewline
      exact ⟨last, .past rfl starts rfl (by decide) skips, ends⟩
    · refine ⟨region, .stay closed, fun d isNext blank => ?_⟩
      obtain rfl := Option.some.inj isNext
      simp only [Bool.not_eq_true] at isSpace isNewline
      rw [isBlank, isSpace, newline, isNewline, Bool.false_or, Bool.false_or] at blank
      exact eq_of_beq blank

/-- A comment is skipped to the end of its line. -/
theorem walks_comment {lexer : Lexer} (isNext : lexer.src.head? = some (byte ';')) :
    Walks .comment lexer.step .comment
        (lexer.skip (lexer.src.takeWhile (· != byte '\n')).length) ∧
      Closed .comment (lexer.skip (lexer.src.takeWhile (· != byte '\n')).length).src := by
  have continues : ∀ c, (c != byte '\n') = true → within .comment c = some .comment :=
    fun c other => if_pos other
  obtain ⟨tail, source⟩ := List.head?_eq_some_iff.mp isNext
  have isTail : lexer.step.src = tail := by rw [step, source, List.tail_cons]
  have walks := walks_takeWhile continues lexer.step
  rw [isTail, ← skip_succ, ← List.length_cons (a := byte ';'),
    ← List.takeWhile_cons_of_pos (p := (· != byte '\n')) (by decide), ← source] at walks
  refine ⟨walks, fun c isEnd => ?_⟩
  have rest : (lexer.skip (lexer.src.takeWhile (· != byte '\n')).length).src =
      lexer.src.dropWhile (· != byte '\n') := drop_takeWhile _ _
  have other := List.head?_dropWhile_not (· != byte '\n') lexer.src
  rw [rest, Option.mem_def] at isEnd
  rw [isEnd] at other
  have isNewline : c = byte '\n' := bne_eq_false_iff_eq.mp other
  rw [isNewline]
  rfl

theorem skips_skipWsAndCommentsLoop : ∀ (fuel : Nat) {region : Region} {lexer after : Lexer},
    Closed region lexer.src → skipWsAndCommentsLoop fuel lexer = .ok () after →
      ∃ last, Skips region lexer last after ∧ ∀ c ∈ after.src.head?, isBlank c = false := by
  intro fuel
  induction fuel with
  | zero =>
    intro region lexer after _ ran
    cases ran
  | succ fuel inductionHypothesis =>
    intro region lexer after closed ran
    obtain ⟨between, skips, ends⟩ :=
      skips_skipSpaces lexer.src lexer.pos lexer.line lexer.col closed
    rw [skipWsAndCommentsLoop, modify_bind_run, peek_bind_run] at ran
    split_ifs at ran with isComment
    · have isNext := eq_of_beq isComment
      obtain ⟨walks, closed'⟩ := walks_comment isNext
      obtain ⟨last, skips', ends'⟩ := inductionHypothesis closed' ran
      exact ⟨last, skips.trans (.comment isNext (skips.closed _ isNext) walks skips'), ends'⟩
    · cases ran
      refine ⟨between, skips, fun c isNext => ?_⟩
      rw [Bool.eq_false_iff]
      intro blank
      rw [Option.mem_def.mp isNext, ends c isNext blank] at isComment
      exact absurd rfl isComment

/-! ### Texts -/

/-- The tokens of some bytes, and where each one lies. -/
inductive Laid : Region → Lexer → List Token → Prop
  | eof {region last : Region} {lexer after : Lexer} : Skips region lexer last after →
      after.src = [] → Laid region lexer [after.token .eof]
  | token {region here last : Region} {lexer between after : Lexer} {c : UInt8} {tok : Token}
      {tokens : List Token} : Skips region lexer here between → between.src.head? = some c →
      isBlank c = false → Lexeme between tok last after → Laid last after tokens →
      Laid region lexer (tok :: tokens)

theorem laid_tokenizeLoop (limit : Nat) : ∀ (fuel : Nat) {region : Region}
    {tokens read : List Token} {lexer after : Lexer}, Closed region lexer.src →
      tokenizeLoop limit fuel tokens lexer = .ok read after →
      ∃ more, read = tokens ++ more ∧ Laid region lexer more := by
  intro fuel
  induction fuel with
  | zero =>
    intro region tokens read lexer after _ ran
    cases ran
  | succ fuel inductionHypothesis =>
    intro region tokens read lexer after closed ran
    obtain ⟨_, here, skipped, ran⟩ := bind_eq_ok.mp ran
    rw [skipWsAndComments, get_bind_run] at skipped
    obtain ⟨last, skips, ends⟩ := skips_skipWsAndCommentsLoop _ closed skipped
    rw [get_bind_run] at ran
    split_ifs at ran with isEmpty
    · cases ran
      exact ⟨[after.token .eof], rfl, .eof skips (List.isEmpty_iff.mp isEmpty)⟩
    · cases ran
    · obtain ⟨tok, between, isToken, ran⟩ := bind_eq_ok.mp ran
      obtain ⟨c, tail, source⟩ := List.exists_cons_of_ne_nil (mt List.isEmpty_iff.mpr isEmpty)
      obtain ⟨region', lexeme⟩ := lexeme_nextToken source isToken
      obtain ⟨more, rfl, laid⟩ := inductionHypothesis lexeme.closed ran
      have isNext : here.src.head? = some c := by rw [source, List.head?_cons]
      refine ⟨tok :: more, by rw [List.append_assoc, List.singleton_append], ?_⟩
      exact .token skips isNext (ends c isNext) lexeme laid

end Lexer

/-- The tokens of a text lie in it from its start on. -/
theorem laid_of_tokenize {src : String} {tokens : List Token} (read : tokenize src = .ok tokens) :
    Lexer.Laid .gap (.new src) tokens := by
  unfold tokenize at read
  cases ran : tokenizeLoop maxTokens ((Lexer.new src).src.length + 1) [] (Lexer.new src) with
  | ok tokens' after =>
    simp only [ran] at read
    cases read
    obtain ⟨more, rfl, laid⟩ := Lexer.laid_tokenizeLoop _ _ (Lexer.closed_gap _) ran
    exact laid
  | error stop after =>
    simp only [ran] at read
    cases read

end Factum
