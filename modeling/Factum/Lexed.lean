/-
This file says what the lexer makes sure of in the tokens it returns.

A symbol is a word of the symbol scanner that does not start like a number, a
variable, a keyword and an entity are words of their scanners, and a URI has no
closing bracket. The bytes need not be those of a text for this: a byte below 128
is the character of its code, and a longer sequence is decoded to a character from
128 on, which every scanner accepts.
-/

import Factum.Scan

namespace Factum

open Stateful

/-- What the lexer makes sure of in a token. -/
def TokenKind.Lexed : TokenKind → Prop
  | .symbol text => Lexer.IsSymbol text
  | .var name => Lexer.IsWord isNameByte name
  | .keyword name => Lexer.IsWord isNameByte name
  | .entity name => Lexer.IsWord isEntityByte name
  | .uri text => '>' ∉ text.toList
  | _ => True

namespace Lexer

/-! ### One character -/

theorem toNat_latin1 {c : UInt8} (narrow : c.toNat < 128) : (latin1 c).toNat = c.toNat := by
  have valid : c.toNat.isValidChar := .inl (by omega)
  rw [latin1, Char.ofNat, dif_pos valid]
  rfl

theorem byte_latin1 {c : UInt8} (narrow : c.toNat < 128) : byte (latin1 c) = c := by
  rw [byte, toNat_latin1 narrow]
  exact UInt8.ofNat_toNat

theorem width?_pos {lead : UInt8} {width : Nat} (announced : Utf8.width? lead = some width) :
    0 < width := by
  unfold Utf8.width? at announced
  split_ifs at announced <;> cases announced <;> decide

/-- A sequence that is decoded, and is as long as its lead byte announces, is the encoding of
what is read. -/
theorem encode_of_announced {c : UInt8} {sequence : List UInt8} {read : Char}
    (announced : Utf8.width? c = some (c :: sequence).length)
    (decoded : Utf8.decode? (c :: sequence) = some read) :
    String.utf8EncodeChar read = c :: sequence := by
  have shape := Utf8.encode_of_decode? decoded
  obtain ⟨lead, rest, isEncoding, width⟩ := Utf8.width?_encode read
  have sameLead : lead = c := by
    rw [isEncoding, List.length_cons, List.take_succ_cons] at shape
    exact (List.cons.inj shape).1
  rw [sameLead, announced] at width
  rw [shape, ← Option.some.inj width, List.take_length]

/-- What is read from a byte from 128 on is a character from 128 on, by its encoding. -/
theorem readUtf8Char_ok {c : UInt8} {tail : List UInt8} {ch : Char} {lexer after : Lexer}
    (wide : 128 ≤ c.toNat) (source : lexer.src = c :: tail)
    (ran : readUtf8Char lexer = .ok ch after) :
    128 ≤ ch.toNat ∧ ∃ sequence, tail = sequence ++ after.src ∧
      Utf8.width? c = some (c :: sequence).length ∧
      Utf8.decode? (c :: sequence) = some ch ∧ after = lexer.skip (c :: sequence).length := by
  rw [readUtf8Char, get_bind_run, source] at ran
  dsimp only at ran
  cases announced : Utf8.width? c with
  | none =>
    rw [announced] at ran
    cases ran
  | some width =>
    simp only [announced] at ran
    split_ifs at ran with short
    · cases ran
    · obtain ⟨less, rfl⟩ := Nat.exists_eq_add_one_of_ne_zero (Nat.ne_of_gt (width?_pos announced))
      rw [List.take_succ_cons] at ran
      cases decoded : Utf8.decode? (c :: tail.take less) with
      | none =>
        rw [decoded] at ran
        cases ran
      | some read =>
        rw [decoded] at ran
        cases ran
        have length : (c :: tail.take less).length = less + 1 := by
          rw [List.length_cons] at short ⊢
          rw [List.length_take_of_le (by omega)]
        refine ⟨Utf8.wide_of_decode? wide decoded, tail.take less, ?_, by rw [length], decoded,
          by rw [length]⟩
        show tail = tail.take less ++ lexer.src.drop (less + 1)
        rw [source, List.drop_succ_cons, List.take_append_drop]

/-- The bytes of a sequence are all from 128 on. -/
theorem wide_of_mem_sequence {c d : UInt8} {sequence : List UInt8} {ch : Char}
    (announced : Utf8.width? c = some (c :: sequence).length)
    (decoded : Utf8.decode? (c :: sequence) = some ch) (wide : 128 ≤ ch.toNat)
    (member : d ∈ sequence) : 128 ≤ d.toNat := by
  refine Utf8.le_of_mem_encode wide ?_
  rw [encode_of_announced announced decoded]
  exact List.mem_cons_of_mem c member

/-- What is read is the character of the byte that is next, or one from 128 on. -/
theorem readChar_ok {c : UInt8} {tail : List UInt8} {ch : Char} {lexer after : Lexer}
    (source : lexer.src = c :: tail) (ran : readChar c lexer = .ok ch after) :
    (c.toNat < 128 ∧ ch = latin1 c ∧ after.src = tail) ∨ (128 ≤ c.toNat ∧ 128 ≤ ch.toNat) := by
  unfold readChar at ran
  split_ifs at ran with isWide
  · have wide : 128 ≤ c.toNat := UInt8.le_iff_toNat_le.mp isWide
    exact .inr ⟨wide, (readUtf8Char_ok wide source ran).1⟩
  · have narrow : c.toNat < 128 := by
      rw [UInt8.le_iff_toNat_le] at isWide
      exact Nat.lt_of_not_le isWide
    cases ran
    exact .inl ⟨narrow, rfl, by rw [step, source, List.tail_cons]⟩

/-! ### Words -/

/-- The characters that are read from the start of some bytes, up to the first one from 128
on: each is the character of its byte. -/
inductive Spells : List UInt8 → List Char → Prop
  | nil (source : List UInt8) : Spells source []
  | narrow {c : UInt8} {tail : List UInt8} {word : List Char} : c.toNat < 128 →
      Spells tail word → Spells (c :: tail) (latin1 c :: word)
  | wide {c : UInt8} {tail : List UInt8} {ch : Char} {word : List Char} : 128 ≤ c.toNat →
      128 ≤ ch.toNat → Spells (c :: tail) (ch :: word)

theorem acceptsChar_latin1 {accepts : UInt8 → Bool} {c : UInt8} (narrow : c.toNat < 128) :
    acceptsChar accepts (latin1 c) = accepts c := by
  rw [acceptsChar, if_pos (by rwa [toNat_latin1 narrow]), byte_latin1 narrow]

theorem acceptsChar_wide {accepts : UInt8 → Bool} {ch : Char} (wide : 128 ≤ ch.toNat) :
    acceptsChar accepts ch = true := if_neg (Nat.not_lt.mpr wide)

/-- A word is made of accepted characters. -/
theorem lexWordLoop_ok {accepts : UInt8 → Bool} : ∀ (fuel : Nat) {buf result : List Char}
    {lexer after : Lexer}, lexWordLoop accepts fuel buf lexer = .ok result after →
      ∃ word, result = buf ++ word ∧ (∀ c ∈ word, acceptsChar accepts c = true) ∧
        Spells lexer.src word := by
  intro fuel
  induction fuel with
  | zero =>
    intro buf result lexer after ran
    cases ran
  | succ fuel inductionHypothesis =>
    intro buf result lexer after ran
    rw [lexWordLoop, peek_bind_run] at ran
    have done : ∀ {result : List Char}, (pure buf : LexM (List Char)) lexer = .ok result after →
        ∃ word, result = buf ++ word ∧ (∀ c ∈ word, acceptsChar accepts c = true) ∧
          Spells lexer.src word := by
      intro result ran
      cases ran
      exact ⟨[], (List.append_nil _).symm, fun c member => absurd member List.not_mem_nil,
        .nil _⟩
    cases source : lexer.src with
    | nil =>
      rw [source] at ran
      exact source ▸ done ran
    | cons c tail =>
      rw [source, List.head?_cons] at ran
      dsimp only at ran
      split_ifs at ran with isAccepted
      · obtain ⟨ch, between, read, ran⟩ := bind_eq_ok.mp ran
        obtain ⟨word, rfl, accepted, spells⟩ := inductionHypothesis ran
        refine ⟨ch :: word, by rw [List.append_assoc, List.singleton_append], ?_, ?_⟩
        · intro d member
          rcases List.mem_cons.mp member with rfl | inWord
          · rcases readChar_ok source read with ⟨narrow, rfl, _⟩ | ⟨_, wide⟩
            · rwa [acceptsChar_latin1 narrow]
            · exact acceptsChar_wide wide
          · exact accepted d inWord
        · rcases readChar_ok source read with ⟨narrow, rfl, isTail⟩ | ⟨wide, wide'⟩
          · exact .narrow narrow (isTail ▸ spells)
          · exact .wide wide wide'
      · exact source ▸ done ran

theorem lexWord_ok {accepts : UInt8 → Bool} {result : List Char} {lexer after : Lexer}
    (ran : lexWord accepts lexer = .ok result after) :
    (∀ c ∈ result, acceptsChar accepts c = true) ∧ Spells lexer.src result := by
  obtain ⟨word, rfl, accepted, spells⟩ := lexWordLoop_ok _ ran
  exact ⟨accepted, spells⟩

/-- A text of accepted characters that is not empty is a word. -/
theorem isWord_ofList {accepts : UInt8 → Bool} {word : List Char} (nonempty : ¬ word.isEmpty)
    (accepted : ∀ c ∈ word, acceptsChar accepts c = true) :
    IsWord accepts (String.ofList word) := by
  rw [List.isEmpty_iff] at nonempty
  exact ⟨by rwa [String.toList_ofList], by rwa [String.toList_ofList]⟩

theorem yields_lexSigil {accepts : UInt8 → Bool} {kind : String → TokenKind} (message : String)
    (start : Lexer) (lexed : ∀ text, IsWord accepts text → (kind text).Lexed) :
    Yields (fun _ => True) (lexSigil accepts kind message start) fun tok => tok.kind.Lexed := by
  refine .bind (.any _) fun _ _ => ?_
  have word : Yields (fun _ => True) (lexWord accepts)
      fun word => ∀ c ∈ word, acceptsChar accepts c = true :=
    fun _ _ _ _ ran => ⟨trivial, (lexWord_ok ran).1⟩
  refine word.bind fun word accepted => .ite (fun _ => .throw_bind _ _) fun nonempty => ?_
  exact .pure (lexed _ (isWord_ofList nonempty accepted))

/-! ### Symbols -/

theorem isDigit_latin1 {c : UInt8} (narrow : c.toNat < 128) :
    (latin1 c).isDigit = isAsciiDigit c := by
  rw [← isAsciiDigit_byte (by rwa [toNat_latin1 narrow]), byte_latin1 narrow]

theorem isDigit_wide {ch : Char} (wide : 128 ≤ ch.toNat) : ch.isDigit = false := by
  rw [← Bool.not_eq_true]
  exact fun digit => absurd (ascii_of_isDigit digit) (by omega)

/-- The first character of a word is a digit only if its byte is. -/
theorem Spells.head {source : List UInt8} {ch : Char} {word : List Char}
    (spells : Spells source (ch :: word)) :
    ∃ c tail, source = c :: tail ∧ (ch.isDigit = true → isAsciiDigit c = true) ∧
      (ch = '-' → c = byte '-' ∧ Spells tail word) := by
  cases spells with
  | @narrow c tail _ narrow rest =>
    refine ⟨c, tail, rfl, fun digit => by rwa [← isDigit_latin1 narrow], fun isMinus => ?_⟩
    exact ⟨by rw [← isMinus, byte_latin1 narrow], rest⟩
  | @wide c tail _ _ _ wide =>
    refine ⟨c, tail, rfl, fun digit => ?_, fun isMinus => ?_⟩
    · rw [isDigit_wide wide] at digit
      cases digit
    · rw [isMinus] at wide
      exact absurd wide (by decide)

/-- A word whose bytes do not start a number does not start like one. -/
theorem Spells.notNumber {c : UInt8} {tail : List UInt8} {word : List Char}
    (spells : Spells (c :: tail) word) (notDigit : isAsciiDigit c = false)
    (notSigned : (c == byte '-' && (tail.head?.map isAsciiDigit).getD false) = false) :
    startsLikeNumber word = false := by
  rw [← Bool.not_eq_true]
  intro number
  unfold startsLikeNumber at number
  split at number
  · obtain ⟨_, _, same, _, isMinus⟩ := spells.head
    obtain ⟨rfl, rfl⟩ := List.cons.inj same
    obtain ⟨rfl, rest⟩ := isMinus rfl
    obtain ⟨_, _, rfl, digit, _⟩ := rest.head
    simp [digit number] at notSigned
  · obtain ⟨_, _, same, digit, _⟩ := spells.head
    obtain ⟨rfl, rfl⟩ := List.cons.inj same
    rw [digit number] at notDigit
    cases notDigit
  · cases number

theorem lexSymbol_ok {start lexer after : Lexer} {tok : Token} {c : UInt8} {tail : List UInt8}
    (source : lexer.src = c :: tail) (notDigit : isAsciiDigit c = false)
    (notSigned : (c == byte '-' && (tail.head?.map isAsciiDigit).getD false) = false)
    (ran : lexSymbol start lexer = .ok tok after) : tok.kind.Lexed := by
  obtain ⟨word, between, read, ran⟩ := bind_eq_ok.mp ran
  obtain ⟨accepted, spells⟩ := lexWord_ok read
  split_ifs at ran with isEmpty
  · obtain ⟨_, _, _, ran⟩ := bind_eq_ok.mp ran
    cases ran
  · cases ran
    refine ⟨isWord_ofList isEmpty accepted, ?_⟩
    rw [String.toList_ofList]
    exact (source ▸ spells).notNumber notDigit notSigned

/-! ### Quoted forms and numbers -/

/-- A URI ends at its first closing bracket. -/
theorem lexUriLoop_ok {start : Lexer} : ∀ (fuel : Nat) {buf result : List Char}
    {lexer after : Lexer}, lexUriLoop start fuel buf lexer = .ok result after → '>' ∉ buf →
      '>' ∉ result := by
  intro fuel
  induction fuel with
  | zero =>
    intro buf result lexer after ran
    cases ran
  | succ fuel inductionHypothesis =>
    intro buf result lexer after ran outside
    rw [lexUriLoop, peek_bind_run] at ran
    cases source : lexer.src with
    | nil =>
      rw [source] at ran
      cases ran
    | cons c tail =>
      rw [source, List.head?_cons] at ran
      dsimp only at ran
      split_ifs at ran with isBracket
      · cases ran
        exact outside
      · obtain ⟨ch, between, read, ran⟩ := bind_eq_ok.mp ran
        refine inductionHypothesis ran fun member => ?_
        rcases List.mem_append.mp member with inBuf | isLast
        · exact outside inBuf
        · rw [List.mem_singleton] at isLast
          subst isLast
          rcases readChar_ok source read with ⟨narrow, isRead, _⟩ | ⟨_, wide⟩
          · exact isBracket (by rw [isRead, byte_latin1 narrow]; exact beq_self_eq_true c)
          · exact absurd wide (by decide)

theorem yields_lexUri (start : Lexer) :
    Yields (fun _ => True) (lexUri start) fun tok => tok.kind.Lexed := by
  refine .bind (.any _) fun _ _ => .get_bind fun state _ => ?_
  have body : Yields (fun _ => True) (lexUriLoop start (state.src.length + 1) [])
      fun text => '>' ∉ text :=
    fun _ _ _ _ ran => ⟨trivial, lexUriLoop_ok _ ran List.not_mem_nil⟩
  refine body.bind fun text outside => .pure ?_
  show '>' ∉ (String.ofList text).toList
  rwa [String.toList_ofList]

theorem yields_lexHashForm (start : Lexer) (letters : List UInt8) (expected afterHash : String)
    {kind : String → TokenKind} (lexed : ∀ text, (kind text).Lexed) :
    Yields (fun _ => True) (lexHashForm start letters expected afterHash kind)
      fun tok => tok.kind.Lexed := by
  refine .bind (.any _) fun _ _ => .bind (.any _) fun _ _ => .bind (.any _) fun _ _ => ?_
  refine .ite (fun _ => .throw_bind _ _) fun _ => .bind (.any _) fun _ _ => ?_
  refine .get_bind fun _ _ => .bind (.any _) fun _ _ => .bind (.any _) fun _ _ => ?_
  exact .ite (fun _ => .bind (.any _) fun _ _ => .pure (lexed _)) fun _ => .pure (lexed _)

theorem yields_lexHashPrefixed (start : Lexer) :
    Yields (fun _ => True) (lexHashPrefixed start) fun tok => tok.kind.Lexed := by
  refine .bind (.any _) fun _ _ => .bind (.any _) fun _ _ => .bind (.any _) fun _ _ => ?_
  refine .ite (fun _ => .bind (.any _) fun _ _ => .pure trivial) fun _ => ?_
  refine .ite (fun _ => .bind (.any _) fun _ _ => .pure trivial) fun _ => ?_
  refine .ite (fun _ => yields_lexHashForm _ _ _ _ fun _ => trivial) fun _ => ?_
  exact .ite (fun _ => yields_lexHashForm _ _ _ _ fun _ => trivial) fun _ => .throw _

theorem yields_lexNumber (start : Lexer) :
    Yields (fun _ => True) (lexNumber start) fun tok => tok.kind.Lexed := by
  refine .bind (.any _) fun _ _ => .bind (.any _) fun _ _ => .bind (.any _) fun _ _ => ?_
  refine .bind (.any _) fun _ _ => .bind (.any _) fun _ _ => ?_
  exact .ite (fun _ => .throw_bind _ _) fun _ => .pure trivial

/-! ### Tokens -/

/-- A token is read by one of two scanners. -/
theorem byCases {condition : Prop} [Decidable condition] {yes no : LexM Token}
    {lexer after : Lexer} {tok : Token} {result : Prop}
    (ifYes : condition → yes lexer = .ok tok after → result)
    (ifNo : ¬ condition → no lexer = .ok tok after → result)
    (ran : (if condition then yes else no) lexer = .ok tok after) : result := by
  split at ran
  · exact ifYes ‹_› ran
  · exact ifNo ‹_› ran

theorem yields_nextToken : Yields (fun _ => True) nextToken fun tok => tok.kind.Lexed := by
  intro lexer tok after _ ran
  refine ⟨trivial, ?_⟩
  have apply : ∀ {computation : LexM Token},
      Yields (fun _ => True) computation (fun tok => tok.kind.Lexed) →
        computation lexer = .ok tok after → tok.kind.Lexed :=
    fun yields ran => (yields lexer tok after trivial ran).2
  have bracket : ∀ kind : TokenKind, kind.Lexed →
      (advance >>= fun _ => pure (lexer.token kind) : LexM Token) lexer = .ok tok after →
        tok.kind.Lexed :=
    fun _ lexed => apply (.bind (.any _) fun _ _ => .pure lexed)
  cases source : lexer.src with
  | nil =>
    rw [nextToken, get_bind_run, source] at ran
    cases ran
  | cons c rest =>
    rw [nextToken_of_src source] at ran
    revert ran
    refine byCases (fun _ => bracket .lParen trivial) fun _ => ?_
    refine byCases (fun _ => bracket .rParen trivial) fun _ => ?_
    refine byCases (fun _ => bracket .lBracket trivial) fun _ => ?_
    refine byCases (fun _ => bracket .rBracket trivial) fun _ => ?_
    refine byCases (fun _ => apply ?_) fun _ => ?_
    · exact .bind (.any _) fun _ _ => .get_bind fun _ _ => .bind (.any _) fun _ _ => .pure trivial
    refine byCases (fun _ => apply (yields_lexSigil _ _ fun _ isWord => isWord)) fun _ => ?_
    refine byCases (fun _ => apply (yields_lexSigil _ _ fun _ isWord => isWord)) fun _ => ?_
    refine byCases (fun _ => apply (yields_lexUri _)) fun _ => ?_
    refine byCases (fun _ => apply (yields_lexSigil _ _ fun _ isWord => isWord)) fun _ => ?_
    refine byCases (fun _ => apply (yields_lexHashPrefixed _)) fun _ => ?_
    refine byCases (fun _ => apply (yields_lexNumber _)) fun notNumber ran => ?_
    rw [Bool.not_eq_true, Bool.or_eq_false_iff] at notNumber
    exact lexSymbol_ok source notNumber.1 notNumber.2 ran

theorem yields_tokenizeLoop (limit : Nat) : ∀ (fuel : Nat) (tokens : List Token),
    (∀ tok ∈ tokens, tok.kind.Lexed) →
      Yields (fun _ => True) (tokenizeLoop limit fuel tokens)
        fun read => ∀ tok ∈ read, tok.kind.Lexed := by
  intro fuel
  induction fuel with
  | zero => exact fun _ _ => .throw _
  | succ fuel inductionHypothesis =>
    intro tokens lexed
    have more : ∀ tok : Token, tok.kind.Lexed → ∀ tok' ∈ tokens ++ [tok], tok'.kind.Lexed := by
      intro tok isLexed tok' member
      rcases List.mem_append.mp member with before | isLast
      · exact lexed tok' before
      · rwa [List.mem_singleton.mp isLast]
    refine .bind (.any _) fun _ _ => .get_bind fun here _ => ?_
    refine .ite (fun _ => .pure (more (here.token .eof) trivial)) fun _ => ?_
    refine .ite (fun _ => .throw_bind _ _) fun _ => ?_
    exact yields_nextToken.bind fun tok isLexed => inductionHypothesis _ (more tok isLexed)

end Lexer

/-- Every token of a text is as the lexer makes sure. -/
theorem lexed_of_tokenize {src : String} {tokens : List Token} (read : tokenize src = .ok tokens) :
    ∀ tok ∈ tokens, tok.kind.Lexed := by
  unfold tokenize at read
  cases ran : tokenizeLoop maxTokens ((Lexer.new src).src.length + 1) [] (Lexer.new src) with
  | ok tokens' after =>
    simp only [ran] at read
    cases read
    exact (Lexer.yields_tokenizeLoop _ _ [] (fun _ member => absurd member List.not_mem_nil)
      _ _ _ trivial ran).2
  | error stop after =>
    simp only [ran] at read
    cases read

end Factum
