/-
This file says that what the lexer reads from a line does not depend on the lines after it.

The lexer is run on some bytes and on the same bytes before a suffix that starts a new line.
Each scanner ends where the line does, so it reads the same on both, or fails on both. Only
a string or a URI that is left open may be closed in the suffix, and a `#date(` or a `#dur(`
is read on in it. So the tokens of a text that leaves none of them open come first wherever
another text is put on the next line, and the tokens of that text come after them.
-/

import Factum.Positions

namespace Factum

open Stateful

namespace Lexer

/-! ### Bytes and a suffix -/

/-- These bytes are none, or start with a new line. -/
def Ended (suffix : List UInt8) : Prop := ∀ c ∈ suffix.head?, c = newline

/-- These bytes close no string and no URI. -/
def Quiet (suffix : List UInt8) : Prop := byte '"' ∉ suffix ∧ byte '>' ∉ suffix

/-- One lexer has the bytes of the other, and a suffix after them. -/
def Onto (suffix : List UInt8) (lexer lexer' : Lexer) : Prop := lexer'.src = lexer.src ++ suffix

section Onto

variable {suffix : List UInt8} {lexer lexer' : Lexer} {c : UInt8}

theorem ended_nil : Ended [] := fun _ member => by cases member

theorem ended_newline (more : List UInt8) : Ended (newline :: more) := by
  intro c member
  exact (Option.mem_some_iff.mp member).symm

/-- Nothing is told apart by the next byte, unless it ends a line. -/
theorem Ended.head (ended : Ended suffix) {is : UInt8 → Bool} (notEnd : is newline = false)
    (bytes : List UInt8) :
    ((bytes ++ suffix).head?.map is).getD false = (bytes.head?.map is).getD false := by
  cases bytes with
  | cons c tail => rfl
  | nil =>
    cases suffix with
    | nil => rfl
    | cons c tail =>
      obtain rfl := ended c rfl
      exact notEnd

theorem Onto.head_eq (ended : Ended suffix) (onto : Onto suffix lexer lexer')
    (notEnd : c ≠ newline) : (lexer'.src.head? == some c) = (lexer.src.head? == some c) := by
  have asIs : ∀ bytes : List UInt8, (bytes.head? == some c) =
      (bytes.head?.map fun first => first == c).getD false := by
    intro bytes
    cases bytes <;> rfl
  have notEnd : (fun first => first == c) newline = false := beq_eq_false_iff_ne.mpr notEnd.symm
  rw [asIs, asIs, onto, ended.head notEnd]

theorem Onto.step (onto : Onto suffix lexer lexer') (isNext : lexer.src.head? = some c) :
    Onto suffix lexer.step lexer'.step := by
  obtain ⟨tail, source⟩ := List.head?_eq_some_iff.mp isNext
  rw [Onto, Lexer.step, Lexer.step, onto, source]
  rfl

theorem Onto.skip (onto : Onto suffix lexer lexer') {count : Nat}
    (enough : count ≤ lexer.src.length) : Onto suffix (lexer.skip count) (lexer'.skip count) := by
  rw [Onto, Lexer.skip, Lexer.skip, onto]
  exact List.drop_append_of_le_length enough

/-- Bytes of a kind are taken up to the end of the line. -/
theorem Ended.takeWhile (ended : Ended suffix) {is : UInt8 → Bool} (notEnd : is newline = false)
    (bytes : List UInt8) : (bytes ++ suffix).takeWhile is = bytes.takeWhile is := by
  rw [List.takeWhile_append]
  split_ifs with whole
  · have none_ : suffix.takeWhile is = [] := by
      cases suffix with
      | nil => rfl
      | cons c tail =>
        obtain rfl := ended c rfl
        exact List.takeWhile_cons_of_neg (by rw [notEnd]; exact Bool.false_ne_true)
    rw [none_, List.append_nil]
    exact ((List.takeWhile_prefix is).eq_of_length whole).symm
  · rfl

end Onto

/-! ### Results that are alike -/

/-- What is read from some bytes and what is read from them and a suffix: both are read, with
values of one key, and the suffix is left after the rest; or both are not, unless the suffix
closes what was left open. -/
def Alike {α κ : Type} (suffix : List UInt8) (key : α → κ) :
    EStateM.Result (Stop LexError) Lexer α → EStateM.Result (Stop LexError) Lexer α → Prop
  | .ok value after, .ok value' after' => key value' = key value ∧ Onto suffix after after'
  | .ok _ _, .error _ _ => False
  | .error _ _, .ok _ _ => ¬ Quiet suffix
  | .error _ _, .error _ _ => True

section Alike

variable {α β κ : Type} {suffix : List UInt8} {key : α → κ} {lexer lexer' : Lexer}

/-- Where the first of two results is an error, the second may be a value only if the suffix is
not quiet. -/
theorem alike_error {stop : Stop LexError} {after : Lexer}
    {right : EStateM.Result (Stop LexError) Lexer α}
    (fails : Quiet suffix → ∀ value after', right ≠ .ok value after') :
    Alike suffix key (.error stop after) right := by
  cases right with
  | ok value after' => exact fun quiet => fails quiet value after' rfl
  | error stop' after' => trivial

theorem Alike.bind {first first' : LexM β} {next next' : β → LexM α}
    (here : Alike suffix id (first lexer) (first' lexer'))
    (rest : ∀ value after after', first lexer = .ok value after → Onto suffix after after' →
      Alike suffix key (next value after) (next' value after')) :
    Alike suffix key ((first >>= next) lexer) ((first' >>= next') lexer') := by
  cases ran : first lexer with
  | ok value after =>
    cases ran' : first' lexer' with
    | ok value' after' =>
      rw [ran, ran'] at here
      obtain ⟨same, onto⟩ := here
      obtain rfl : value' = value := same
      rw [bind_ok ran, bind_ok ran']
      exact rest value' after after' ran onto
    | error stop' after' =>
      rw [ran, ran'] at here
      exact here.elim
  | error stop after =>
    rw [bind_error ran]
    refine alike_error fun quiet value after' succeeds => ?_
    obtain ⟨value', between, ran', _⟩ := bind_eq_ok.mp succeeds
    rw [ran, ran'] at here
    exact here quiet

end Alike

/-! ### Characters and words -/

section Scanners

variable {suffix : List UInt8} {lexer lexer' : Lexer}

/-- A sequence of bytes from 128 on is read whatever follows it. -/
theorem readUtf8Char_run {c : UInt8} {sequence rest : List UInt8} {read : Char}
    (announced : Utf8.width? c = some (c :: sequence).length)
    (decoded : Utf8.decode? (c :: sequence) = some read)
    (source : lexer.src = c :: (sequence ++ rest)) :
    readUtf8Char lexer = .ok read (lexer.skip (c :: sequence).length) := by
  have whole : lexer.src = (c :: sequence) ++ rest := source
  have enough : ¬ lexer.src.length < (c :: sequence).length := by
    rw [whole, List.length_append]
    omega
  rw [readUtf8Char, get_bind_run, source]
  simp only [announced]
  rw [← source, if_neg enough, whole, List.take_left, decoded]
  rfl

/-- Bytes from 128 on that are read over the end of a line are read before it. -/
theorem Ended.wide (ended : Ended suffix) {sequence rest tail : List UInt8}
    (wide : ∀ d ∈ sequence, 128 ≤ d.toNat) (same : tail ++ suffix = sequence ++ rest) :
    ∃ more, tail = sequence ++ more := by
  rcases List.append_eq_append_iff.mp same with ⟨over_, rfl, isSuffix⟩ | ⟨more, rfl, _⟩
  · cases over_ with
    | nil => exact ⟨[], by rw [List.append_nil, List.append_nil]⟩
    | cons d over_ =>
      obtain rfl := ended d (by rw [isSuffix]; rfl)
      exact absurd (wide newline (List.mem_append_right tail List.mem_cons_self)) (by decide)
  · exact ⟨more, rfl⟩

theorem alike_readUtf8Char (ended : Ended suffix) (onto : Onto suffix lexer lexer') {c : UInt8}
    {tail : List UInt8} (wide : 128 ≤ c.toNat) (source : lexer.src = c :: tail) :
    Alike suffix id (readUtf8Char lexer) (readUtf8Char lexer') := by
  have source' : lexer'.src = c :: (tail ++ suffix) := by rw [onto, source, List.cons_append]
  cases ran : readUtf8Char lexer with
  | ok read after =>
    obtain ⟨_, sequence, isSequence, announced, decoded, rfl⟩ := readUtf8Char_ok wide source ran
    rw [isSequence, List.append_assoc] at source'
    rw [readUtf8Char_run announced decoded source']
    refine ⟨rfl, onto.skip ?_⟩
    rw [source, isSequence, List.length_cons, List.length_cons, List.length_append]
    omega
  | error stop after =>
    refine alike_error fun _ read after' ran' => ?_
    obtain ⟨wideRead, sequence, isSequence, announced, decoded, _⟩ :=
      readUtf8Char_ok wide source' ran'
    obtain ⟨more, rfl⟩ := ended.wide
      (fun d member => wide_of_mem_sequence announced decoded wideRead member) isSequence
    rw [readUtf8Char_run announced decoded source] at ran
    cases ran

theorem alike_readChar (ended : Ended suffix) (onto : Onto suffix lexer lexer') {c : UInt8}
    {tail : List UInt8} (source : lexer.src = c :: tail) :
    Alike suffix id (readChar c lexer) (readChar c lexer') := by
  unfold readChar
  split_ifs with isWide
  · exact alike_readUtf8Char ended onto (UInt8.le_iff_toNat_le.mp isWide) source
  · exact ⟨rfl, onto.step (by rw [source, List.head?_cons])⟩

/-- A character takes a byte at least. -/
theorem readChar_length {c : UInt8} {tail : List UInt8} {read : Char} {after : Lexer}
    (source : lexer.src = c :: tail) (ran : readChar c lexer = .ok read after) :
    after.src.length < lexer.src.length := by
  unfold readChar at ran
  split_ifs at ran with isWide
  · obtain ⟨_, sequence, isSequence, _⟩ :=
      readUtf8Char_ok (UInt8.le_iff_toNat_le.mp isWide) source ran
    rw [source, isSequence, List.length_cons, List.length_append]
    omega
  · cases ran
    rw [step, source, List.tail_cons, List.length_cons]
    exact Nat.lt_succ_self _

/-- A word ends where the line does. -/
theorem alike_lexWordLoop (ended : Ended suffix) {accepts : UInt8 → Bool}
    (stops : accepts newline = false) : ∀ (fuel : Nat) {fuel' : Nat} {buf : List Char}
      {lexer lexer' : Lexer}, Onto suffix lexer lexer' → lexer.src.length < fuel →
      lexer'.src.length < fuel' →
      Alike suffix id (lexWordLoop accepts fuel buf lexer) (lexWordLoop accepts fuel' buf lexer')
  | 0, _, _, _, _, _, enough, _ => absurd enough (Nat.not_lt_zero _)
  | fuel + 1, fuel', buf, lexer, lexer', onto, enough, enough' => by
    obtain ⟨less, rfl⟩ := Nat.exists_eq_add_one_of_ne_zero (Nat.ne_zero_of_lt enough')
    rw [lexWordLoop, lexWordLoop, peek_bind_run, peek_bind_run]
    cases source : lexer.src with
    | nil =>
      -- the line ends here, and the next byte, if any, is not accepted
      have stopped : (lexer'.src.head?.map accepts).getD false = false := by
        rw [onto, ended.head stops, source]
        rfl
      cases isNext : lexer'.src.head? with
      | none => exact ⟨rfl, onto⟩
      | some c =>
        rw [isNext] at stopped
        have stopped : accepts c = false := stopped
        simp only [stopped]
        exact ⟨rfl, onto⟩
    | cons c tail =>
      have isNext : lexer'.src.head? = some c := by rw [onto, source, List.cons_append]; rfl
      rw [isNext]
      dsimp only [List.head?_cons]
      split_ifs with accepted
      · refine (alike_readChar ended onto source).bind fun read after after' ran onto' => ?_
        have shorter := readChar_length source ran
        have longer : after'.src.length < lexer'.src.length := by
          rw [onto, onto', List.length_append, List.length_append]
          omega
        exact alike_lexWordLoop ended stops fuel onto' (by omega) (by omega)
      · exact ⟨rfl, onto⟩

theorem alike_lexWord (ended : Ended suffix) {accepts : UInt8 → Bool}
    (stops : accepts newline = false) (onto : Onto suffix lexer lexer') :
    Alike suffix id (lexWord accepts lexer) (lexWord accepts lexer') :=
  alike_lexWordLoop ended stops _ onto (Nat.lt_succ_self _) (Nat.lt_succ_self _)

/-! ### Tokens that end in their line -/

variable {start start' : Lexer} {c : UInt8}

theorem alike_advance_bind {α κ : Type} {key : α → κ} {next next' : Unit → LexM α}
    (onto : Onto suffix lexer lexer') (isNext : lexer.src.head? = some c)
    (rest : Onto suffix lexer.step lexer'.step →
      Alike suffix key (next () lexer.step) (next' () lexer'.step)) :
    Alike suffix key ((advance >>= next) lexer) ((advance >>= next') lexer') := by
  rw [advance_bind_run, advance_bind_run]
  exact rest (onto.step isNext)

theorem alike_lexSigil (ended : Ended suffix) {accepts : UInt8 → Bool}
    (stops : accepts newline = false) {kind : String → TokenKind} {message : String}
    (onto : Onto suffix lexer lexer') (isNext : lexer.src.head? = some c) :
    Alike suffix Token.kind (lexSigil accepts kind message start lexer)
      (lexSigil accepts kind message start' lexer') := by
  refine alike_advance_bind onto isNext fun onto => ?_
  refine (alike_lexWord ended stops onto).bind fun word after after' _ onto => ?_
  dsimp only
  split_ifs
  · trivial
  · exact ⟨rfl, onto⟩

theorem alike_lexSymbol (ended : Ended suffix) (onto : Onto suffix lexer lexer') :
    Alike suffix Token.kind (lexSymbol start lexer) (lexSymbol start' lexer') := by
  refine (alike_lexWord ended rfl onto).bind fun word after after' _ onto => ?_
  dsimp only
  split_ifs
  · trivial
  · exact ⟨rfl, onto⟩

theorem alike_expectBytes (ended : Ended suffix) {message : String} : ∀ (letters : List UInt8)
    {lexer lexer' : Lexer}, newline ∉ letters → Onto suffix lexer lexer' →
      Alike suffix id (expectBytes start message letters lexer)
        (expectBytes start' message letters lexer')
  | [], _, _, _, onto => ⟨rfl, onto⟩
  | c :: letters, lexer, lexer', inLine, onto => by
    have sameNext := onto.head_eq ended (List.ne_of_not_mem_cons inLine).symm
    rw [expectBytes, expectBytes, peek_bind_run, peek_bind_run, bne, bne, sameNext]
    split_ifs with isOther
    · trivial
    · have isNext : lexer.src.head? = some c := by simpa using isOther
      exact alike_advance_bind onto isNext fun onto =>
        alike_expectBytes ended letters (List.not_mem_of_not_mem_cons inLine) onto

/-! ### Numbers -/

theorem alike_lexDigits (ended : Ended suffix) (onto : Onto suffix lexer lexer') :
    Alike suffix id (lexDigits lexer) (lexDigits lexer') := by
  have same : lexer'.src.takeWhile isAsciiDigit = lexer.src.takeWhile isAsciiDigit := by
    rw [onto, ended.takeWhile rfl]
  show Alike suffix id
    (.ok ((lexer.src.takeWhile isAsciiDigit).map latin1)
      (lexer.skip (lexer.src.takeWhile isAsciiDigit).length))
    (.ok ((lexer'.src.takeWhile isAsciiDigit).map latin1)
      (lexer'.skip (lexer'.src.takeWhile isAsciiDigit).length))
  rw [same]
  exact ⟨rfl, onto.skip (List.takeWhile_prefix _).length_le⟩

/-- A byte that does not end a line is read if it is next. -/
theorem alike_peek {α κ : Type} {key : α → κ} (ended : Ended suffix) (notEnd : c ≠ newline)
    {yes no yes' no' : LexM α} (onto : Onto suffix lexer lexer')
    (ifYes : Onto suffix lexer.step lexer'.step →
      Alike suffix key (yes lexer.step) (yes' lexer'.step))
    (ifNo : Alike suffix key (no lexer) (no' lexer')) :
    Alike suffix key
      ((peek >>= fun next => if next == some c then advance >>= fun _ => yes else no) lexer)
      ((peek >>= fun next => if next == some c then advance >>= fun _ => yes' else no')
        lexer') := by
  rw [peek_bind_run, peek_bind_run, onto.head_eq ended notEnd]
  split_ifs with isNext
  · exact alike_advance_bind onto (eq_of_beq isNext) ifYes
  · exact ifNo

theorem alike_lexSign (ended : Ended suffix) (onto : Onto suffix lexer lexer') :
    Alike suffix id (lexSign lexer) (lexSign lexer') :=
  alike_peek ended (by decide) onto (fun onto => ⟨rfl, onto⟩) ⟨rfl, onto⟩

theorem alike_lexFraction (ended : Ended suffix) (onto : Onto suffix lexer lexer') :
    Alike suffix id (lexFraction lexer) (lexFraction lexer') := by
  refine alike_peek ended (by decide) onto (fun onto => ?_) ⟨rfl, onto⟩
  exact (alike_lexDigits ended onto).bind fun digits after after' _ onto => ⟨rfl, onto⟩

theorem alike_lexNumber (ended : Ended suffix) (onto : Onto suffix lexer lexer') :
    Alike suffix Token.kind (lexNumber start lexer) (lexNumber start' lexer') := by
  refine (alike_lexSign ended onto).bind fun sign after after' _ onto => ?_
  refine (alike_lexDigits ended onto).bind fun whole after after' _ onto => ?_
  refine (alike_lexFraction ended onto).bind fun fraction after after' _ onto => ?_
  dsimp only
  rw [peek_bind_run, peek_bind_run, peekAt_bind_run, peekAt_bind_run,
    onto.head_eq ended (by decide)]
  -- a second point and the digit after it are in one line
  have sameSecond : (after.src.head? == some (byte '.')) = true →
      (after'.src[1]?.map isAsciiDigit).getD false =
        (after.src[1]?.map isAsciiDigit).getD false := by
    intro isPoint
    obtain ⟨tail, source⟩ := List.head?_eq_some_iff.mp (eq_of_beq isPoint)
    rw [onto, source, List.cons_append, List.getElem?_cons_succ, List.getElem?_cons_succ,
      ← List.head?_eq_getElem?, ← List.head?_eq_getElem?, ended.head rfl]
  cases isPoint : after.src.head? == some (byte '.') with
  | false => exact ⟨rfl, onto⟩
  | true =>
    rw [sameSecond isPoint]
    split_ifs
    · trivial
    · exact ⟨rfl, onto⟩

/-! ### Strings and URIs -/

/-- Bytes that close no string and no URI are not left over by one that is open. -/
theorem Walks.unclosed {region last : Region} {after : Lexer}
    (walks : Walks region lexer last after) (quiet : Quiet lexer.src)
    (open_ : region = .string ∨ region = .escape ∨ region = .uri) : last ≠ .gap := by
  induction walks with
  | stay =>
    rintro rfl
    rcases open_ with same | same | same <;> cases same
  | @past region region' _ c lexer _ isNext continues _ inductionHypothesis =>
    obtain ⟨tail, source⟩ := List.head?_eq_some_iff.mp isNext
    rw [Quiet, source] at quiet
    have isTail : lexer.step.src = tail := by rw [step, source, List.tail_cons]
    refine inductionHypothesis ?_ ?_
    · rw [isTail]
      exact ⟨List.not_mem_of_not_mem_cons quiet.1, List.not_mem_of_not_mem_cons quiet.2⟩
    · have notQuote : ¬ (c == byte '"') = true := fun same =>
        List.ne_of_not_mem_cons quiet.1 (eq_of_beq same).symm
      have notBracket : ¬ (c == byte '>') = true := fun same =>
        List.ne_of_not_mem_cons quiet.2 (eq_of_beq same).symm
      rcases open_ with rfl | rfl | rfl
      · rw [within, if_neg notQuote] at continues
        split_ifs at continues <;> cases continues
        · exact .inr (.inl rfl)
        · exact .inl rfl
      · cases continues
        exact .inl rfl
      · rw [within, if_neg notBracket] at continues
        cases continues
        exact .inr (.inr rfl)

theorem alike_lexStringLoop (ended : Ended suffix) : ∀ (fuel : Nat) {fuel' : Nat}
    {buf : List Char} {lexer lexer' : Lexer}, Onto suffix lexer lexer' →
      lexer.src.length < fuel → lexer'.src.length < fuel' →
      Alike suffix id (lexStringLoop start fuel buf lexer) (lexStringLoop start' fuel' buf lexer')
  | 0, _, _, _, _, _, enough, _ => absurd enough (Nat.not_lt_zero _)
  | fuel + 1, fuel', buf, lexer, lexer', onto, enough, enough' => by
    obtain ⟨less, rfl⟩ := Nat.exists_eq_add_one_of_ne_zero (Nat.ne_zero_of_lt enough')
    -- what is not closed before the suffix is not closed in it
    have unclosed : ∀ {fuel' : Nat} {buf : List Char} {lexer' : Lexer}, lexer'.src = suffix ∨
        lexer'.src = suffix.tail → Quiet suffix → ∀ text after',
        lexStringLoop start' fuel' buf lexer' ≠ .ok text after' := by
      intro fuel' buf lexer' source quiet text after' ran
      refine (walks_lexStringLoop _ ran).unclosed ?_ (.inl rfl) rfl
      rcases source with source | source <;> rw [source]
      · exact quiet
      · exact ⟨fun member => quiet.1 (List.mem_of_mem_tail member),
          fun member => quiet.2 (List.mem_of_mem_tail member)⟩
    cases source : lexer.src with
    | nil =>
      rw [lexStringLoop, peek_bind_run, source]
      exact alike_error (unclosed (.inl (by rw [onto, source, List.nil_append])))
    | cons c tail =>
      have isNext : lexer.src.head? = some c := by rw [source, List.head?_cons]
      have isNext' : lexer'.src.head? = some c := by rw [onto, source, List.cons_append]; rfl
      have longer : lexer'.src.length = lexer.src.length + suffix.length := by
        rw [onto, List.length_append]
      rw [lexStringLoop, lexStringLoop, peek_bind_run, peek_bind_run, isNext, isNext']
      dsimp only
      split_ifs with isQuote isBackslash
      · exact ⟨rfl, onto.step isNext⟩
      · refine alike_advance_bind onto isNext fun onto => ?_
        have isTail : lexer.step.src = tail := by rw [step, source, List.tail_cons]
        rw [peek_bind_run, peek_bind_run]
        cases isTail' : tail with
        | nil =>
          rw [isTail, isTail']
          refine alike_error fun quiet text after' ran => ?_
          have source' : lexer'.step.src = suffix := by rw [onto, isTail, isTail', List.nil_append]
          cases isSuffix : suffix with
          | nil =>
            rw [source', isSuffix] at ran
            cases ran
          | cons d more =>
            rw [source', isSuffix] at ran
            refine unclosed (.inr ?_) quiet text after' ran
            rw [step, source']
        | cons escaped rest =>
          have isEscaped : lexer.step.src.head? = some escaped := by
            rw [isTail, isTail', List.head?_cons]
          have isEscaped' : lexer'.step.src.head? = some escaped := by
            rw [onto, isTail, isTail', List.cons_append]
            rfl
          rw [isEscaped, isEscaped']
          refine alike_advance_bind onto isEscaped fun onto => ?_
          have shorter : lexer.step.step.src.length < lexer.src.length := by
            rw [step, isTail, isTail', source, isTail']
            exact Nat.lt_succ_of_lt (Nat.lt_succ_self _)
          have shorter' : lexer'.step.step.src.length < lexer'.src.length := by
            rw [onto, List.length_append]
            omega
          exact alike_lexStringLoop ended fuel onto (by omega) (by omega)
      · refine (alike_readChar ended onto source).bind fun read after after' ran onto' => ?_
        have shorter := readChar_length source ran
        have longer : after'.src.length < lexer'.src.length := by
          rw [onto', List.length_append]
          omega
        exact alike_lexStringLoop ended fuel onto' (by omega) (by omega)

theorem alike_lexString (ended : Ended suffix) (onto : Onto suffix lexer lexer')
    (isNext : lexer.src.head? = some c) :
    Alike suffix Token.kind (lexString start lexer) (lexString start' lexer') := by
  refine alike_advance_bind onto isNext fun onto => ?_
  rw [get_bind_run, get_bind_run]
  refine (alike_lexStringLoop ended _ onto (Nat.lt_succ_self _) (Nat.lt_succ_self _)).bind
    fun text after after' _ onto => ⟨rfl, onto⟩

theorem alike_lexUriLoop (ended : Ended suffix) : ∀ (fuel : Nat) {fuel' : Nat}
    {buf : List Char} {lexer lexer' : Lexer}, Onto suffix lexer lexer' →
      lexer.src.length < fuel → lexer'.src.length < fuel' →
      Alike suffix id (lexUriLoop start fuel buf lexer) (lexUriLoop start' fuel' buf lexer')
  | 0, _, _, _, _, _, enough, _ => absurd enough (Nat.not_lt_zero _)
  | fuel + 1, fuel', buf, lexer, lexer', onto, enough, enough' => by
    obtain ⟨less, rfl⟩ := Nat.exists_eq_add_one_of_ne_zero (Nat.ne_zero_of_lt enough')
    cases source : lexer.src with
    | nil =>
      have source' : lexer'.src = suffix := by rw [onto, source, List.nil_append]
      rw [lexUriLoop, peek_bind_run, source]
      refine alike_error fun quiet text after' ran => ?_
      exact (walks_lexUriLoop _ ran).unclosed (source' ▸ quiet) (.inr (.inr rfl)) rfl
    | cons c tail =>
      have isNext : lexer.src.head? = some c := by rw [source, List.head?_cons]
      have isNext' : lexer'.src.head? = some c := by rw [onto, source, List.cons_append]; rfl
      rw [lexUriLoop, lexUriLoop, peek_bind_run, peek_bind_run, isNext, isNext']
      dsimp only
      split_ifs with isBracket
      · exact ⟨rfl, onto.step isNext⟩
      · refine (alike_readChar ended onto source).bind fun read after after' ran onto' => ?_
        have shorter := readChar_length source ran
        have longer : after'.src.length < lexer'.src.length := by
          rw [onto, onto', List.length_append, List.length_append]
          omega
        exact alike_lexUriLoop ended fuel onto' (by omega) (by omega)

theorem alike_lexUri (ended : Ended suffix) (onto : Onto suffix lexer lexer')
    (isNext : lexer.src.head? = some c) :
    Alike suffix Token.kind (lexUri start lexer) (lexUri start' lexer') := by
  refine alike_advance_bind onto isNext fun onto => ?_
  rw [get_bind_run, get_bind_run]
  refine (alike_lexUriLoop ended _ onto (Nat.lt_succ_self _) (Nat.lt_succ_self _)).bind
    fun text after after' _ onto => ⟨rfl, onto⟩

/-! ### Dates and durations -/

/-- A `#date(...)` or a `#dur(...)`. -/
def HashForm : TokenKind → Prop
  | .date _ | .duration _ => True
  | _ => False

/-- What is left open to the end of the bytes is read on in the suffix. -/
def ReadsOn (suffix : List UInt8) (region : Region) (lexer : Lexer) :
    EStateM.Result (Stop LexError) Lexer Token → EStateM.Result (Stop LexError) Lexer Token → Prop
  | .ok tok after, .ok tok' after' => suffix ≠ [] ∧ HashForm tok.kind ∧ HashForm tok'.kind ∧
      Walks region lexer .form after ∧ after.src = [] ∧
      after'.src = (suffix.dropWhile (· != byte ')')).tail
  | _, _ => False

/-- The content of a form is read up to its closing parenthesis, or to the end. -/
theorem hashContent_run (start : Lexer) (kind : String → TokenKind) (lexer : Lexer) :
    ∃ after, (get >>= fun opened =>
      advanceBy (opened.src.takeWhile (· != byte ')')).length >>= fun _ =>
      peek >>= fun closing => if closing == some (byte ')') then
          advance >>= fun _ => pure (start.token (kind (String.ofList
            ((opened.src.takeWhile (· != byte ')')).map latin1))))
        else pure (start.token (kind (String.ofList
          ((opened.src.takeWhile (· != byte ')')).map latin1)))) : LexM Token) lexer =
      .ok (start.token (kind (String.ofList ((lexer.src.takeWhile (· != byte ')')).map latin1))))
        after ∧ after.src = (lexer.src.dropWhile (· != byte ')')).tail ∧
      (byte ')' ∉ lexer.src → after = lexer.skip lexer.src.length) := by
  have rest : (lexer.skip (lexer.src.takeWhile (· != byte ')')).length).src =
      lexer.src.dropWhile (· != byte ')') := drop_takeWhile _ _
  have first := List.head?_dropWhile_not (· != byte ')') lexer.src
  show ∃ after, (peek >>= fun closing => if closing == some (byte ')') then
          advance >>= fun _ => pure (start.token (kind (String.ofList
            ((lexer.src.takeWhile (· != byte ')')).map latin1))))
        else pure (start.token (kind (String.ofList
          ((lexer.src.takeWhile (· != byte ')')).map latin1)))) : LexM Token)
    (lexer.skip (lexer.src.takeWhile (· != byte ')')).length) = .ok _ after ∧ _
  rw [peek_bind_run, rest]
  cases isRest : lexer.src.dropWhile (· != byte ')') with
  | nil =>
    have whole : lexer.src.takeWhile (· != byte ')') = lexer.src :=
      List.takeWhile_eq_self_iff.mpr (List.dropWhile_eq_nil_iff.mp isRest)
    refine ⟨_, rfl, by rw [rest, isRest]; rfl, fun _ => by rw [whole]⟩
  | cons c more =>
    rw [isRest] at first rest
    obtain rfl : c = byte ')' := bne_eq_false_iff_eq.mp first
    refine ⟨_, rfl, by rw [step, rest], fun notMember => absurd ?_ notMember⟩
    exact (List.dropWhile_suffix _).subset (isRest ▸ List.mem_cons_self)

/-- Bytes up to the first closing parenthesis. -/
theorem until_closing {front : List UInt8} (notClosed : byte ')' ∉ front) (rest : List UInt8) :
    (front ++ byte ')' :: rest).takeWhile (· != byte ')') = front ∧
      (front ++ byte ')' :: rest).dropWhile (· != byte ')') = byte ')' :: rest := by
  have inFront : ∀ c ∈ front, (c != byte ')') = true := fun c member =>
    bne_iff_ne.mpr fun same => notClosed (same ▸ member)
  rw [List.takeWhile_append_of_pos inFront, List.dropWhile_append_of_pos inFront]
  exact ⟨List.append_nil front, rfl⟩

/-- A form that is closed before the suffix is read as without it, and one that is not is read
on. -/
theorem alike_lexHashForm (ended : Ended suffix) {letters : List UInt8}
    {expected afterHash : String} {kind : String → TokenKind}
    (isHashForm : ∀ text, HashForm (kind text)) (inLine : newline ∉ letters)
    (inForm : byte ')' ∉ letters) (onto : Onto suffix lexer lexer')
    (isNext : lexer.src.head? = some (byte 'd')) :
    Alike suffix Token.kind (lexHashForm start letters expected afterHash kind lexer)
        (lexHashForm start' letters expected afterHash kind lexer') ∨
      ReadsOn suffix .hash lexer (lexHashForm start letters expected afterHash kind lexer)
        (lexHashForm start' letters expected afterHash kind lexer') := by
  have named : Alike suffix id (expectBytes start expected letters lexer.step)
      (expectBytes start' expected letters lexer'.step) :=
    alike_expectBytes ended letters inLine (onto.step isNext)
  rw [lexHashForm, lexHashForm, advance_bind_run, advance_bind_run]
  cases ran : expectBytes start expected letters lexer.step with
  | error stop after =>
    exact .inl (named.bind fun _ _ _ ran' _ => absurd (ran.symm.trans ran') (by simp))
  | ok value between =>
    cases ran' : expectBytes start' expected letters lexer'.step with
    | error stop after =>
      rw [ran, ran'] at named
      exact named.elim
    | ok value' between' =>
      rw [ran, ran'] at named
      obtain ⟨_, onto⟩ := named
      rw [bind_ok ran, bind_ok ran', peek_bind_run, peek_bind_run, bne, bne,
        onto.head_eq ended (by decide)]
      split_ifs with isOther
      · exact .inl trivial
      · have isOpen : between.src.head? = some (byte '(') := by simpa using isOther
        dsimp only
        rw [advance_bind_run, advance_bind_run]
        obtain ⟨after, content, source, atEnd⟩ := hashContent_run start kind between.step
        obtain ⟨after', content', source', _⟩ := hashContent_run start' kind between'.step
        have onto := onto.step isOpen
        rw [content, content']
        by_cases isClosed : byte ')' ∈ between.step.src
        · obtain ⟨front, rest, isSource, notClosed⟩ := List.eq_append_cons_of_mem isClosed
          obtain ⟨taken, dropped⟩ := until_closing notClosed rest
          obtain ⟨taken', dropped'⟩ := until_closing notClosed (rest ++ suffix)
          rw [onto, isSource, List.append_assoc, List.cons_append] at source' ⊢
          rw [dropped'] at source'
          rw [isSource, dropped] at source
          rw [taken, taken']
          refine .inl ⟨rfl, ?_⟩
          rw [Onto, source, source']
          rfl
        · have all : ∀ c ∈ between.step.src, (c != byte ')') = true := fun c member =>
            bne_iff_ne.mpr fun same => isClosed (same ▸ member)
          have atEnd := atEnd isClosed
          have empty : after.src = [] := by rw [atEnd, Lexer.skip, List.drop_length]
          by_cases noSuffix : suffix = []
          · rw [Onto, noSuffix, List.append_nil] at onto
            refine .inl ⟨by rw [onto]; rfl, ?_⟩
            rw [Onto, source, source', onto, noSuffix, List.append_nil]
          · rw [onto, List.dropWhile_append_of_pos all] at source'
            refine .inr ⟨noSuffix, isHashForm _, isHashForm _, ?_, empty, source'⟩
            have continues : ∀ c, (c != byte ')') = true → within .form c = some .form :=
              fun c other => if_pos other
            have walks : Walks .form between.step .form
                (between.step.skip (between.step.src.takeWhile (· != byte ')')).length) :=
              walks_takeWhile continues between.step
            rw [List.takeWhile_eq_self_iff.mpr all, ← atEnd] at walks
            exact (walks_hashOpening isNext inForm ran isOpen).trans walks

theorem alike_lexHashPrefixed (ended : Ended suffix) (onto : Onto suffix lexer lexer')
    (isNext : lexer.src.head? = some c) :
    Alike suffix Token.kind (lexHashPrefixed start lexer) (lexHashPrefixed start' lexer') ∨
      ReadsOn suffix .hash lexer.step (lexHashPrefixed start lexer)
        (lexHashPrefixed start' lexer') := by
  have onto := onto.step isNext
  rw [lexHashPrefixed, lexHashPrefixed, advance_bind_run, advance_bind_run, peek_bind_run,
    peek_bind_run, peekAt_bind_run, peekAt_bind_run, onto.head_eq ended (by decide),
    onto.head_eq ended (by decide), onto.head_eq ended (by decide)]
  -- the second letter is looked at after the first
  have sameSecond : ∀ d : UInt8, d ≠ newline → (lexer.step.src.head? == some (byte 'd')) = true →
      (lexer'.step.src[1]? == some d) = (lexer.step.src[1]? == some d) := by
    intro d notEnd isLetter
    obtain ⟨tail, source⟩ := List.head?_eq_some_iff.mp (eq_of_beq isLetter)
    have ontoTail := onto.step (eq_of_beq isLetter)
    have isTail : ∀ lexer : Lexer, lexer.src[1]? = lexer.step.src.head? := by
      intro lexer
      rw [Lexer.step, List.head?_tail]
    rw [isTail, isTail, ontoTail.head_eq ended notEnd]
  by_cases isTrue : (lexer.step.src.head? == some (byte 't')) = true
  · rw [if_pos isTrue, if_pos isTrue]
    exact .inl (alike_advance_bind onto (eq_of_beq isTrue) fun onto => ⟨rfl, onto⟩)
  rw [if_neg isTrue, if_neg isTrue]
  by_cases isFalse : (lexer.step.src.head? == some (byte 'f')) = true
  · rw [if_pos isFalse, if_pos isFalse]
    exact .inl (alike_advance_bind onto (eq_of_beq isFalse) fun onto => ⟨rfl, onto⟩)
  rw [if_neg isFalse, if_neg isFalse]
  cases isLetter : lexer.step.src.head? == some (byte 'd') with
  | false => exact .inl trivial
  | true =>
    rw [sameSecond _ (by decide) isLetter, sameSecond _ (by decide) isLetter]
    simp only [Bool.true_and]
    split_ifs with isDate isDuration
    · exact alike_lexHashForm ended (fun _ => trivial) (by decide) (by decide) onto
        (eq_of_beq isLetter)
    · exact alike_lexHashForm ended (fun _ => trivial) (by decide) (by decide) onto
        (eq_of_beq isLetter)
    · exact .inl trivial

/-! ### All tokens -/

/-- What is decided in the same way is related if both cases are. -/
theorem bothCases (related : EStateM.Result (Stop LexError) Lexer Token →
      EStateM.Result (Stop LexError) Lexer Token → Prop) {condition : Prop} [Decidable condition]
    {yes no yes' no' : LexM Token} (ifYes : condition → related (yes lexer) (yes' lexer'))
    (ifNo : related (no lexer) (no' lexer')) :
    related ((if condition then yes else no) lexer)
      ((if condition then yes' else no') lexer') := by
  by_cases holds : condition
  · rw [if_pos holds, if_pos holds]
    exact ifYes holds
  · rw [if_neg holds, if_neg holds]
    exact ifNo

/-- A token that is not left open is read as without the suffix. -/
theorem alike_nextToken (ended : Ended suffix) (onto : Onto suffix lexer lexer')
    (isNext : lexer.src.head? = some c) :
    Alike suffix Token.kind (nextToken lexer) (nextToken lexer') ∨
      ReadsOn suffix (opening c) lexer.step (nextToken lexer) (nextToken lexer') := by
  obtain ⟨tail, source⟩ := List.head?_eq_some_iff.mp isNext
  have source' : lexer'.src = c :: (tail ++ suffix) := by rw [onto, source, List.cons_append]
  have bracket : ∀ kind : TokenKind, Alike suffix Token.kind
      ((advance >>= fun _ => pure (lexer.token kind) : LexM Token) lexer)
      ((advance >>= fun _ => pure (lexer'.token kind) : LexM Token) lexer') :=
    fun kind => alike_advance_bind onto isNext fun onto => ⟨rfl, onto⟩
  rw [nextToken_of_src source, nextToken_of_src source', ended.head rfl]
  let related := fun left right =>
    Alike suffix Token.kind left right ∨ ReadsOn suffix (opening c) lexer.step left right
  refine bothCases related (fun _ => .inl (bracket .lParen)) ?_
  refine bothCases related (fun _ => .inl (bracket .rParen)) ?_
  refine bothCases related (fun _ => .inl (bracket .lBracket)) ?_
  refine bothCases related (fun _ => .inl (bracket .rBracket)) ?_
  refine bothCases related (fun _ => .inl (alike_lexString ended onto isNext)) ?_
  refine bothCases related (fun _ => .inl (alike_lexSigil ended rfl onto isNext)) ?_
  refine bothCases related (fun _ => .inl (alike_lexSigil ended rfl onto isNext)) ?_
  refine bothCases related (fun _ => .inl (alike_lexUri ended onto isNext)) ?_
  refine bothCases related (fun _ => .inl (alike_lexSigil ended rfl onto isNext)) ?_
  refine bothCases related (fun isHash => ?_) ?_
  · have opens : opening c = .hash := by rw [eq_of_beq isHash]; rfl
    show Alike _ _ _ _ ∨ ReadsOn _ (opening c) _ _ _
    rw [opens]
    exact alike_lexHashPrefixed ended onto isNext
  refine bothCases related (fun _ => .inl (alike_lexNumber ended onto)) ?_
  exact .inl (alike_lexSymbol ended onto)

end Scanners

end Lexer

end Factum
