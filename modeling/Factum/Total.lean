/-
This file shows that every text is read to an answer.

The lexer takes a byte at least for every token and never looks for a byte beyond the end
of the text, so it returns tokens, or an error at a place in the text. The tokens end in
the only end of the input, from where the parser is safe. Both entry points of the parser
therefore return what they read or an error; no text makes them panic, and the loops of
the model never run out of fuel. The arithmetic is that of a release build, where the
seconds of a duration wrap; a build that checks for overflow stops there instead.
-/

import Factum.Depth
import Factum.Joined

namespace Factum

open Stateful

namespace Lexer

/-! ### Runs within a text -/

/-- A lexer in a text of so many bytes that has so many of them before it at most. -/
structure Within (total left : Nat) (lexer : Lexer) : Prop where
  span : lexer.pos + lexer.src.length = total
  short : lexer.src.length ≤ left

/-- A run that comes to an end: with a lexer in the text, or with an error at a place in it. -/
def Settles {α : Type} (total left : Nat) (computation : LexM α) (before : Lexer) : Prop :=
  match computation before with
  | .ok _ after => Within total left after
  | .error stop _ => ∃ error, stop = .fail error ∧ error.offset ≤ total

section Rules

variable {α β : Type} {total left mid : Nat} {lexer : Lexer}

theorem Within.pos_le (within_ : Within total left lexer) : lexer.pos ≤ total := by
  have span := within_.span
  omega

theorem Within.mono (within_ : Within total mid lexer) (fits : mid ≤ left) :
    Within total left lexer := ⟨within_.span, within_.short.trans fits⟩

theorem Settles.pure (within_ : Within total left lexer) (value : α) :
    Settles total left (Pure.pure value) lexer := within_

theorem settles_error {start : Lexer} (inside : start.pos ≤ total) (message : String) :
    Settles total left (throw (start.error message) : LexM α) lexer := ⟨_, rfl, inside⟩

theorem Settles.mono {computation : LexM α} (settles : Settles total mid computation lexer)
    (fits : mid ≤ left) : Settles total left computation lexer := by
  unfold Settles at *
  cases ran : computation lexer with
  | ok value after =>
    rw [ran] at settles
    exact settles.mono fits
  | error stop after => rwa [ran] at settles

theorem Settles.bind {first : LexM α} {next : α → LexM β}
    (settles : Settles total mid first lexer)
    (rest : ∀ value after, first lexer = .ok value after → Within total mid after →
      Settles total left (next value) after) : Settles total left (first >>= next) lexer := by
  unfold Settles at *
  cases ran : first lexer with
  | ok value after =>
    rw [ran] at settles
    rw [bind_ok ran]
    exact rest value after ran settles
  | error stop after =>
    rw [ran] at settles
    rw [bind_error ran]
    exact settles

theorem Settles.ite {condition : Prop} [Decidable condition] {yes no : LexM α}
    (ifYes : condition → Settles total left yes lexer)
    (ifNo : ¬ condition → Settles total left no lexer) :
    Settles total left (if condition then yes else no) lexer := by
  split
  · exact ifYes ‹_›
  · exact ifNo ‹_›

/-- Where there is a byte, at least one is before the lexer. -/
theorem Within.exists_succ {c : UInt8} {tail : List UInt8} (source : lexer.src = c :: tail)
    (within_ : Within total left lexer) : ∃ less, left = less + 1 := by
  have short := within_.short
  rw [source, List.length_cons] at short
  exact Nat.exists_eq_add_one_of_ne_zero (by omega)

/-- Moving over some bytes that are there. -/
theorem Within.skip {count : Nat} (within_ : Within total (left + count) lexer)
    (there : count ≤ lexer.src.length) : Within total left (lexer.skip count) := by
  obtain ⟨span, short⟩ := within_
  refine ⟨?_, ?_⟩
  · show lexer.pos + count + (lexer.src.drop count).length = total
    rw [List.length_drop]
    omega
  · show (lexer.src.drop count).length ≤ left
    rw [List.length_drop]
    omega

/-- Moving over a byte that is there. -/
theorem Within.step {c : UInt8} {tail : List UInt8} (source : lexer.src = c :: tail)
    (within_ : Within total (left + 1) lexer) : Within total left lexer.step := by
  obtain ⟨span, short⟩ := within_
  rw [source, List.length_cons] at span short
  refine ⟨?_, ?_⟩
  · show lexer.pos + 1 + lexer.src.tail.length = total
    rw [source, List.tail_cons]
    omega
  · show lexer.src.tail.length ≤ left
    rw [source, List.tail_cons]
    omega

theorem settles_get_bind {next : Lexer → LexM β} (rest : Settles total left (next lexer) lexer) :
    Settles total left (get >>= next) lexer := rest

theorem settles_advance_bind {c : UInt8} {tail : List UInt8} {next : Unit → LexM β}
    (source : lexer.src = c :: tail) (within_ : Within total (mid + 1) lexer)
    (rest : Within total mid lexer.step → Settles total left (next ()) lexer.step) :
    Settles total left (advance >>= next) lexer :=
  rest (within_.step source)

/-- Moving over the longest run of accepted bytes. -/
theorem settles_takeWhile_bind {accepts : UInt8 → Bool} {next : Unit → LexM β}
    (within_ : Within total mid lexer)
    (rest : ∀ after, Within total mid after → Settles total left (next ()) after) :
    Settles total left (advanceBy (lexer.src.takeWhile accepts).length >>= next) lexer := by
  refine rest _ (Within.skip (within_.mono (Nat.le_add_right _ _)) ?_)
  exact (List.takeWhile_prefix _).length_le

end Rules

/-! ### Words and characters -/

section Words

variable {total left : Nat} {lexer : Lexer}

theorem settles_readUtf8Char {c : UInt8} {tail : List UInt8} (source : lexer.src = c :: tail)
    (within_ : Within total (left + 1) lexer) : Settles total left readUtf8Char lexer := by
  have inside := within_.pos_le
  unfold Settles
  rw [readUtf8Char, get_bind_run, source]
  dsimp only
  cases announced : Utf8.width? c with
  | none => exact ⟨_, rfl, inside⟩
  | some width =>
    dsimp only
    split_ifs with short
    · exact ⟨_, rfl, inside⟩
    · cases Utf8.decode? ((c :: tail).take width) with
      | none => exact ⟨_, rfl, inside⟩
      | some ch =>
        have positive := width?_pos announced
        refine Within.skip (within_.mono (by omega)) ?_
        rw [source]
        exact Nat.le_of_not_lt short

theorem settles_readChar {c : UInt8} {tail : List UInt8} (source : lexer.src = c :: tail)
    (within_ : Within total (left + 1) lexer) : Settles total left (readChar c) lexer :=
  .ite (fun _ => settles_readUtf8Char source within_) fun _ => within_.step source

/-- The word that is read has a character where its first byte is accepted. -/
theorem settles_lexWordLoop (accepts : UInt8 → Bool) : ∀ (fuel : Nat) {left : Nat}
    {lexer : Lexer} (buf : List Char), Within total left lexer → left < fuel →
      Settles total left (lexWordLoop accepts fuel buf) lexer := by
  intro fuel
  induction fuel with
  | zero =>
    intro left lexer buf _ enough
    exact absurd enough (Nat.not_lt_zero _)
  | succ fuel inductionHypothesis =>
    intro left lexer buf within_ enough
    unfold Settles
    rw [lexWordLoop, peek_bind_run]
    cases source : lexer.src with
    | nil => exact within_
    | cons c tail =>
      obtain ⟨less, rfl⟩ := within_.exists_succ source
      refine Settles.ite (fun _ => ?_) fun _ => within_
      refine (settles_readChar source within_).bind fun ch after _ inside => ?_
      exact (inductionHypothesis _ inside (by omega)).mono (Nat.le_succ less)

theorem settles_lexWord (accepts : UInt8 → Bool) (within_ : Within total left lexer) :
    Settles total left (lexWord accepts) lexer := by
  have exact_ : Within total lexer.src.length lexer := ⟨within_.span, le_rfl⟩
  exact (settles_lexWordLoop accepts _ [] exact_ (Nat.lt_succ_self _)).mono within_.short

theorem settles_lexSigil {accepts : UInt8 → Bool} {kind : String → TokenKind} {message : String}
    {start : Lexer} {c : UInt8} {tail : List UInt8} (inside : start.pos ≤ total)
    (source : lexer.src = c :: tail) (within_ : Within total (left + 1) lexer) :
    Settles total left (lexSigil accepts kind message start) lexer := by
  refine settles_advance_bind source within_ fun within_ => ?_
  refine (settles_lexWord accepts within_).bind fun buf after _ within_ => ?_
  exact .ite (fun _ => settles_error inside message) fun _ => .pure within_ _

theorem settles_lexSymbol {start : Lexer} {c : UInt8} {tail : List UInt8}
    (inside : start.pos ≤ total) (source : lexer.src = c :: tail)
    (within_ : Within total (left + 1) lexer) : Settles total left (lexSymbol start) lexer := by
  cases accepted : isSymbolByte c with
  | false =>
    have stays : lexWord isSymbolByte lexer = .ok [] lexer := by
      rw [lexWord, get_bind_run, lexWordLoop, peek_bind_run, source]
      dsimp only [List.head?_cons]
      rw [accepted]
      rfl
    have settles : Settles total (left + 1) (lexWord isSymbolByte) lexer := by
      unfold Settles
      rw [stays]
      exact within_
    refine settles.bind fun buf after ran _ => ?_
    rw [stays] at ran
    cases ran
    exact ⟨_, rfl, inside⟩
  | true =>
    have exact_ : Within total (tail.length + 1) lexer :=
      ⟨within_.span, by rw [source, List.length_cons]⟩
    have fits : tail.length ≤ left := by
      have short := within_.short
      rw [source, List.length_cons] at short
      exact Nat.le_of_succ_le_succ short
    have shorter : Settles total left (lexWord isSymbolByte) lexer := by
      unfold Settles
      rw [lexWord, get_bind_run, lexWordLoop, peek_bind_run, source]
      dsimp only [List.head?_cons]
      rw [accepted, if_pos rfl]
      refine (settles_readChar source exact_).bind fun ch after _ inside => ?_
      exact (settles_lexWordLoop _ _ _ inside (Nat.lt_succ_self _)).mono fits
    refine shorter.bind fun buf after _ within_ => ?_
    exact .ite (fun _ => ⟨_, rfl, inside⟩) fun _ => .pure within_ _

end Words

/-! ### Quoted forms -/

section Quoted

variable {total : Nat} {start : Lexer}

theorem settles_lexStringLoop (inside : start.pos ≤ total) : ∀ (fuel : Nat) {left : Nat}
    {lexer : Lexer} (buf : List Char), Within total left lexer → left < fuel →
      Settles total left (lexStringLoop start fuel buf) lexer := by
  intro fuel
  induction fuel with
  | zero =>
    intro left lexer buf _ enough
    exact absurd enough (Nat.not_lt_zero _)
  | succ fuel inductionHypothesis =>
    intro left lexer buf within_ enough
    unfold Settles
    rw [lexStringLoop, peek_bind_run]
    cases source : lexer.src with
    | nil => exact ⟨_, rfl, inside⟩
    | cons c tail =>
      obtain ⟨less, rfl⟩ := within_.exists_succ source
      refine Settles.ite (fun _ => (within_.step source).mono (Nat.le_succ less)) fun _ =>
        .ite (fun _ => ?_) fun _ => ?_
      · refine settles_advance_bind source within_ fun within_ => ?_
        unfold Settles
        rw [peek_bind_run]
        cases source' : lexer.step.src with
        | nil => exact ⟨_, rfl, within_.pos_le⟩
        | cons escaped rest =>
          obtain ⟨lesser, rfl⟩ := within_.exists_succ source'
          refine settles_advance_bind source' within_ fun within_ => ?_
          exact (inductionHypothesis _ within_ (by omega)).mono (by omega)
      · refine (settles_readChar source within_).bind fun ch after _ within_ => ?_
        exact (inductionHypothesis _ within_ (by omega)).mono (Nat.le_succ less)

theorem settles_lexUriLoop (inside : start.pos ≤ total) : ∀ (fuel : Nat) {left : Nat}
    {lexer : Lexer} (buf : List Char), Within total left lexer → left < fuel →
      Settles total left (lexUriLoop start fuel buf) lexer := by
  intro fuel
  induction fuel with
  | zero =>
    intro left lexer buf _ enough
    exact absurd enough (Nat.not_lt_zero _)
  | succ fuel inductionHypothesis =>
    intro left lexer buf within_ enough
    unfold Settles
    rw [lexUriLoop, peek_bind_run]
    cases source : lexer.src with
    | nil => exact ⟨_, rfl, inside⟩
    | cons c tail =>
      obtain ⟨less, rfl⟩ := within_.exists_succ source
      refine Settles.ite (fun _ => (within_.step source).mono (Nat.le_succ less)) fun _ => ?_
      refine (settles_readChar source within_).bind fun ch after _ within_ => ?_
      exact (inductionHypothesis _ within_ (by omega)).mono (Nat.le_succ less)

/-- A quoted form: its opening byte, and a loop that reads up to its end. -/
theorem settles_quoted {loop : Lexer → Nat → List Char → LexM (List Char)}
    (settles : ∀ (fuel : Nat) {left : Nat} {lexer : Lexer} (buf : List Char),
      Within total left lexer → left < fuel → Settles total left (loop start fuel buf) lexer)
    {kind : String → TokenKind} {left : Nat} {lexer : Lexer} {c : UInt8} {tail : List UInt8}
    (source : lexer.src = c :: tail) (within_ : Within total (left + 1) lexer) :
    Settles total left (do
      advance
      let buf ← loop start ((← get).src.length + 1) []
      return start.token (kind (String.ofList buf))) lexer := by
  refine settles_advance_bind source within_ fun within_ => ?_
  have exact_ : Within total lexer.step.src.length lexer.step := ⟨within_.span, le_rfl⟩
  refine settles_get_bind ?_
  refine ((settles _ [] exact_ (Nat.lt_succ_self _)).mono within_.short).bind ?_
  exact fun buf after _ within_ => .pure within_ _

theorem settles_expectBytes (inside : start.pos ≤ total) (message : String) {left : Nat} :
    ∀ (letters : List UInt8) {lexer : Lexer}, Within total left lexer →
      Settles total left (expectBytes start message letters) lexer
  | [], _, within_ => .pure within_ _
  | expected :: rest, lexer, within_ => by
    unfold Settles
    rw [expectBytes, peek_bind_run]
    cases source : lexer.src with
    | nil => exact ⟨_, rfl, inside⟩
    | cons c tail =>
      obtain ⟨less, rfl⟩ := within_.exists_succ source
      refine Settles.ite (fun _ => settles_error inside message) fun _ => ?_
      refine settles_advance_bind source within_ fun within_ => ?_
      exact settles_expectBytes inside message rest (within_.mono (Nat.le_succ less))

theorem settles_lexHashForm (inside : start.pos ≤ total) (letters : List UInt8)
    (expected afterHash : String) (kind : String → TokenKind) {left : Nat} {lexer : Lexer}
    {c : UInt8} {tail : List UInt8} (source : lexer.src = c :: tail)
    (within_ : Within total (left + 1) lexer) :
    Settles total left (lexHashForm start letters expected afterHash kind) lexer := by
  refine settles_advance_bind source within_ fun within_ => ?_
  refine (settles_expectBytes inside expected letters within_).bind fun _ after _ within_ => ?_
  unfold Settles
  rw [peek_bind_run]
  cases source' : after.src with
  | nil => exact ⟨_, rfl, inside⟩
  | cons d rest =>
    refine Settles.ite (fun _ => ⟨_, rfl, inside⟩) fun _ => ?_
    obtain ⟨less, rfl⟩ := within_.exists_succ source'
    refine settles_advance_bind source' within_ fun within_ => ?_
    refine settles_get_bind (settles_takeWhile_bind within_ fun after' within_ => ?_)
    unfold Settles
    rw [peek_bind_run]
    refine Settles.ite (fun closes => ?_) fun _ => within_.mono (Nat.le_succ less)
    cases source' : after'.src with
    | nil =>
      rw [source'] at closes
      cases closes
    | cons e rest =>
      obtain ⟨lesser, rfl⟩ := within_.exists_succ source'
      exact (within_.step source').mono (by omega)

theorem settles_lexHashPrefixed (inside : start.pos ≤ total) {left : Nat} {lexer : Lexer}
    {c : UInt8} {tail : List UInt8} (source : lexer.src = c :: tail)
    (within_ : Within total (left + 1) lexer) :
    Settles total left (lexHashPrefixed start) lexer := by
  refine settles_advance_bind source within_ fun within_ => ?_
  unfold Settles
  rw [peek_bind_run, peekAt_bind_run]
  cases source' : lexer.step.src with
  | nil => exact ⟨_, rfl, inside⟩
  | cons d rest =>
    obtain ⟨less, rfl⟩ := within_.exists_succ source'
    have here := within_.step source'
    have mono : ∀ {computation : LexM Token}, Settles total less computation lexer.step →
        Settles total (less + 1) computation lexer.step := fun settles =>
      settles.mono (Nat.le_succ less)
    refine Settles.ite (fun _ => here.mono (Nat.le_succ less)) fun _ => ?_
    refine .ite (fun _ => here.mono (Nat.le_succ less)) fun _ => ?_
    refine .ite (fun _ => mono (settles_lexHashForm inside _ _ _ _ source' within_)) fun _ => ?_
    refine .ite (fun _ => mono (settles_lexHashForm inside _ _ _ _ source' within_)) fun _ => ?_
    exact ⟨_, rfl, inside⟩

end Quoted

/-! ### Numbers -/

section Numbers

variable {total left : Nat} {lexer : Lexer}

/-- The digits that are read are fewer bytes where the next one is a digit. -/
theorem settles_lexDigits (within_ : Within total left lexer) :
    Settles total left lexDigits lexer :=
  settles_get_bind (settles_takeWhile_bind within_ fun _ within_ => .pure within_ _)

theorem settles_lexDigits_next {c : UInt8} {tail : List UInt8} (source : lexer.src = c :: tail)
    (isDigit : isAsciiDigit c = true) (within_ : Within total (left + 1) lexer) :
    Settles total left lexDigits lexer := by
  have longer : 1 ≤ (lexer.src.takeWhile isAsciiDigit).length := by
    rw [source, List.takeWhile_cons_of_pos isDigit]
    exact Nat.le_add_left 1 _
  refine settles_get_bind (Within.skip (within_.mono (by omega)) ?_)
  exact (List.takeWhile_prefix _).length_le

theorem settles_lexFraction (within_ : Within total left lexer) :
    Settles total left lexFraction lexer := by
  unfold Settles
  rw [lexFraction, peek_bind_run]
  refine Settles.ite (fun isPoint => ?_) fun _ => within_
  cases source : lexer.src with
  | nil =>
    rw [source] at isPoint
    cases isPoint
  | cons c tail =>
    obtain ⟨less, rfl⟩ := within_.exists_succ source
    refine settles_advance_bind source within_ fun within_ => ?_
    refine ((settles_lexDigits within_).bind fun digits after _ within_ => ?_).mono
      (Nat.le_succ less)
    exact .pure within_ _

theorem settles_lexNumber {start : Lexer} (inside : start.pos ≤ total) {c : UInt8}
    {tail : List UInt8} (source : lexer.src = c :: tail)
    (starts : (isAsciiDigit c || c == byte '-') = true)
    (within_ : Within total (left + 1) lexer) : Settles total left (lexNumber start) lexer := by
  have rest : ∀ (sign whole : List Char) {after : Lexer}, Within total left after →
      Settles total left (do
        let fraction ← lexFraction
        let buf := String.ofList (sign ++ whole ++ fraction)
        if (← peek) == some (byte '.') && ((← peekAt 1).map isAsciiDigit).getD false then
          throw (start.error ("multi-dot number '" ++ buf ++
            "'... — use string quotes for version numbers, IP addresses, etc. (e.g., \"" ++ buf ++
            "...\")"))
        return start.token (.number buf)) after := by
    intro sign whole after within_
    refine (settles_lexFraction within_).bind fun fraction after _ within_ => ?_
    unfold Settles
    dsimp only
    rw [peek_bind_run, peekAt_bind_run]
    exact Settles.ite (fun _ => ⟨_, rfl, inside⟩) fun _ => .pure within_ _
  unfold Settles
  rw [lexNumber]
  by_cases isSign : c = byte '-'
  · have signed : lexSign lexer = .ok ['-'] lexer.step := by
      rw [lexSign, peek_bind_run, source, isSign]
      rfl
    rw [bind_ok signed]
    have within_ := within_.step source
    exact (settles_lexDigits within_).bind fun whole after _ within_ => rest _ whole within_
  · have unsigned : lexSign lexer = .ok [] lexer := by
      rw [lexSign, peek_bind_run, source]
      simp [isSign]
    have isDigit : isAsciiDigit c = true := by simpa [isSign] using starts
    rw [bind_ok unsigned]
    exact (settles_lexDigits_next source isDigit within_).bind
      fun whole after _ within_ => rest _ whole within_

end Numbers

/-! ### Tokens and token lists -/

section Tokens

variable {total left : Nat} {lexer : Lexer}

theorem settles_nextToken {c : UInt8} {tail : List UInt8} (source : lexer.src = c :: tail)
    (within_ : Within total (left + 1) lexer) : Settles total left nextToken lexer := by
  have inside := within_.pos_le
  have bracket := within_.step source
  have starts : (isAsciiDigit c || (c == byte '-' && (tail.head?.map isAsciiDigit).getD false)) =
      true → (isAsciiDigit c || c == byte '-') = true := by
    cases isAsciiDigit c <;> cases c == byte '-' <;> simp
  unfold Settles
  rw [nextToken, get_bind_run, source]
  dsimp only
  refine Settles.ite (fun _ => bracket) fun _ => .ite (fun _ => bracket) fun _ =>
    .ite (fun _ => bracket) fun _ => .ite (fun _ => bracket) fun _ =>
    .ite (fun _ => settles_quoted (settles_lexStringLoop inside) source within_) fun _ =>
    .ite (fun _ => settles_lexSigil inside source within_) fun _ =>
    .ite (fun _ => settles_lexSigil inside source within_) fun _ =>
    .ite (fun _ => settles_quoted (settles_lexUriLoop inside) source within_) fun _ =>
    .ite (fun _ => settles_lexSigil inside source within_) fun _ =>
    .ite (fun _ => settles_lexHashPrefixed inside source within_) fun _ =>
    .ite (fun isNumber => settles_lexNumber inside source (starts isNumber) within_) fun _ =>
      settles_lexSymbol inside source within_

theorem skipSpaces_within : ∀ (src : List UInt8) (pos line col : Nat),
    Within (pos + src.length) src.length (skipSpaces src pos line col)
  | [], pos, line, col => ⟨rfl, le_rfl⟩
  | c :: rest, pos, line, col => by
    have more : ∀ line col, Within (pos + (c :: rest).length) (c :: rest).length
        (skipSpaces rest (pos + 1) line col) := by
      intro line col
      obtain ⟨span, short⟩ := skipSpaces_within rest (pos + 1) line col
      rw [List.length_cons]
      exact ⟨by omega, by omega⟩
    unfold skipSpaces
    split_ifs
    · exact more line _
    · exact more _ 1
    · exact ⟨rfl, le_rfl⟩

theorem settles_skipWsAndCommentsLoop : ∀ (fuel : Nat) {left : Nat} {lexer : Lexer},
    Within total left lexer → left < fuel →
      Settles total left (skipWsAndCommentsLoop fuel) lexer := by
  intro fuel
  induction fuel with
  | zero =>
    intro left lexer _ enough
    exact absurd enough (Nat.not_lt_zero _)
  | succ fuel inductionHypothesis =>
    intro left lexer within_ enough
    have skipped : Within total left (skipSpaces lexer.src lexer.pos lexer.line lexer.col) := by
      have inText := skipSpaces_within lexer.src lexer.pos lexer.line lexer.col
      rw [within_.span] at inText
      exact inText.mono within_.short
    unfold Settles
    rw [skipWsAndCommentsLoop, modify_bind_run, peek_bind_run]
    generalize skipSpaces lexer.src lexer.pos lexer.line lexer.col = here at skipped
    refine Settles.ite (fun isComment => ?_) fun _ => skipped
    cases source : here.src with
    | nil =>
      rw [source] at isComment
      cases isComment
    | cons c tail =>
      obtain ⟨less, rfl⟩ := skipped.exists_succ source
      refine settles_get_bind ?_
      have isSemicolon : c = byte ';' := by simpa [source] using isComment
      have longer : 1 ≤ (here.src.takeWhile (· != byte '\n')).length := by
        rw [source, isSemicolon, List.takeWhile_cons_of_pos (by decide)]
        exact Nat.le_add_left 1 _
      have there := (List.takeWhile_prefix (· != byte '\n') : _ <+: here.src).length_le
      have moved : Within total less
          (here.skip (here.src.takeWhile (· != byte '\n')).length) :=
        Within.skip (skipped.mono (by omega)) there
      exact (inductionHypothesis moved (by omega)).mono (Nat.le_succ less)

theorem settles_skipWsAndComments (within_ : Within total left lexer) :
    Settles total left skipWsAndComments lexer := by
  have exact_ : Within total lexer.src.length lexer := ⟨within_.span, le_rfl⟩
  exact (settles_skipWsAndCommentsLoop _ exact_ (Nat.lt_succ_self _)).mono within_.short

theorem settles_tokenizeLoop (limit : Nat) : ∀ (fuel : Nat) {left : Nat} {lexer : Lexer}
    (tokens : List Token), Within total left lexer → left < fuel →
      Settles total left (tokenizeLoop limit fuel tokens) lexer := by
  intro fuel
  induction fuel with
  | zero =>
    intro left lexer tokens _ enough
    exact absurd enough (Nat.not_lt_zero _)
  | succ fuel inductionHypothesis =>
    intro left lexer tokens within_ enough
    refine (settles_skipWsAndComments within_).bind fun _ here _ within_ => ?_
    refine settles_get_bind (.ite (fun _ => .pure within_ _) fun notEmpty => ?_)
    cases source : here.src with
    | nil => exact absurd (by rw [source]; rfl) notEmpty
    | cons c tail =>
      obtain ⟨less, rfl⟩ := within_.exists_succ source
      refine .ite (fun _ => ⟨_, rfl, within_.pos_le⟩) fun _ => ?_
      refine (settles_nextToken source within_).bind fun tok after _ within_ => ?_
      exact (inductionHypothesis _ within_ (by omega)).mono (Nat.le_succ less)

end Tokens

end Lexer

/-! ### Answers -/

/-- A reading comes to an answer: a value, or an error. -/
def Answers {Error α : Type} (read : Except (Stop Error) α) : Prop :=
  (∃ value, read = .ok value) ∨ ∃ error, read = .error (.fail error)

/-- The lexer returns tokens, or an error at a place in the text. -/
theorem tokenize_settles (src : String) :
    (∃ tokens, tokenize src = .ok tokens) ∨
      ∃ error, tokenize src = .error (.fail error) ∧ error.offset ≤ (Utf8.ofString src).length := by
  have within_ : Lexer.Within (Utf8.ofString src).length (Lexer.new src).src.length (.new src) :=
    ⟨Nat.zero_add _, le_rfl⟩
  have settles := Lexer.settles_tokenizeLoop maxTokens _ [] within_ (Nat.lt_succ_self _)
  unfold Lexer.Settles at settles
  unfold tokenize
  dsimp only
  cases ran : tokenizeLoop maxTokens ((Lexer.new src).src.length + 1) [] (Lexer.new src) with
  | ok tokens after => exact .inl ⟨tokens, rfl⟩
  | error stop after =>
    rw [ran] at settles
    obtain ⟨error, rfl, inText⟩ := settles
    exact .inr ⟨error, rfl, inText⟩

namespace Parser

section Texts

variable {F : Type} [F32 F] {host : Host F}

/-- The tokens of a text end in their only end of input. -/
theorem endsInEof_of_tokenize {src : String} {tokens : List Token}
    (read : tokenize src = .ok tokens) : EndsInEof (tokens.map (·.kind)) := by
  obtain ⟨-, -, front, last, rfl, isEof, notEof⟩ := (laid_of_tokenize read).ordered
  refine ⟨front.map (·.kind), ?_, fun member => ?_⟩
  · rw [List.map_append, List.map_singleton, isEof]
  · obtain ⟨tok, inFront, isEof'⟩ := List.mem_map.mp member
    exact notEof tok inFront isEof'

theorem tokensOf_settles (src : String) :
    (∃ tokens, tokensOf src = .ok tokens ∧ EndsInEof (tokens.map (·.kind))) ∨
      ∃ error, tokensOf src = .error (.fail error) := by
  unfold tokensOf
  rcases tokenize_settles src with ⟨tokens, read⟩ | ⟨error, fails, -⟩
  · rw [read]
    dsimp only
    split_ifs
    · exact .inr ⟨_, rfl⟩
    · exact .inl ⟨tokens, rfl, endsInEof_of_tokenize read⟩
  · rw [fails]
    exact .inr ⟨_, rfl⟩

/-- A computation that is tracked comes to an answer from the tokens of every text. -/
theorem answers_of_tracks {α : Type} {good : α → Prop}
    (computation : List Token → Descent → ParserM α) (left : List Token → Nat)
    {ofTokens : List Token → ParserM α}
    (plain : ∀ tokens, computation tokens plainDepth = ofTokens tokens)
    (tracks : ∀ tokens, Tracks Whatever 0 tokens.length (left tokens) good (computation tokens))
    (src : String) :
    Answers (tokensOf src >>= fun tokens => answer (ofTokens tokens) ⟨tokens, 0⟩) := by
  rcases tokensOf_settles src with ⟨tokens, read, ends⟩ | ⟨error, fails⟩
  · have ready : Ready 0 tokens.length ⟨tokens, 0⟩ :=
      ⟨⟨rfl, ends⟩, (List.length_map _).le⟩
    obtain ⟨-, outcome⟩ := tracks tokens ⟨tokens, 0⟩ trivial ready
    rw [plain] at outcome
    rw [read]
    cases ran : ofTokens tokens ⟨tokens, 0⟩ with
    | ok value after => exact .inl ⟨value, answer_ok ran⟩
    | error stop after =>
      rw [ran] at outcome
      obtain ⟨-, error, rfl, -⟩ := outcome
      exact .inr ⟨error, answer_error ran⟩
  · rw [fails]
    exact .inr ⟨error, rfl⟩

theorem answers_parse (tells : host.TellsDepth) (src : String) :
    Answers (parse host src : Except _ (List (Node F))) :=
  answers_of_tracks
    (fun tokens descend => Watched.parseTop descend host (tokens.length + 1) []) (fun _ => 1)
    (fun _ => parseTop_plainDepth host _ [])
    (fun tokens => tracks_parseTop tells (tokens.length + 1) tokens.length []
      (fun _ member => absurd member List.not_mem_nil) (Nat.le_succ _)) src

/-- The body of a predicate, over the way in which it goes a level down. -/
def Watched.parsePredicateBody (descend : Descent) (host : Host F) : ParserM Predicate :=
  descend Predicate do Watched.parsePredicateBodyInner descend host (← get).termFuel

/-- A single predicate, over the way in which its body goes a level down. -/
def Watched.parsePredicate (descend : Descent) (host : Host F) : ParserM Predicate := do
  discard (expect host .lParen)
  let pred ← Watched.parsePredicateBody descend host
  discard (expect host .rParen)
  return pred

omit [F32 F] in
theorem tracks_parsePredicateBody (tells : host.TellsDepth) (size : Nat) :
    Tracks Whatever 0 size size (PredicateBelow 1)
      fun descend => Watched.parsePredicateBody descend host := by
  refine .descend fun _ => tracks_get_bind fun parser fits => ?_
  exact (tracks_parsePredicateBodyInner tells _ _ _ (Nat.le_add_right _ _)).weaken fits

omit [F32 F] in
theorem tracks_parsePredicate (tells : host.TellsDepth) (size : Nat) :
    Tracks Whatever 0 size size AnyValue fun descend => Watched.parsePredicate descend host :=
  tracks_expect_bind ((tracks_parsePredicateBody tells size).bind fun _ _ =>
    tracks_expect_bind (.pure trivial le_rfl))

omit [F32 F] in
theorem answers_parsePredicate (tells : host.TellsDepth) (src : String) :
    Answers (parsePredicate host src) := by
  refine answers_of_tracks (fun _ descend => Watched.parsePredicate descend host) List.length
    (fun tokens => ?_) (fun tokens => tracks_parsePredicate tells tokens.length) src
  simp only [Watched.parsePredicate, Watched.parsePredicateBody,
    parsePredicateBodyInner_plainDepth]
  rfl

/-- Every text comes to an answer in the arithmetic of a release build: the lexer and both entry
points of the parser return a value or an error, and an error of the lexer names a place in the
text. -/
theorem text_answered (tells : host.TellsDepth) (src : String) :
    Answers (tokenize src) ∧
      (∀ error, tokenize src = .error (.fail error) →
        error.offset ≤ (Utf8.ofString src).length) ∧
      Answers (parse host src : Except _ (List (Node F))) ∧ Answers (parsePredicate host src) := by
  refine ⟨?_, fun error fails => ?_, answers_parse tells src, answers_parsePredicate tells src⟩
  · exact (tokenize_settles src).imp_right fun refused => refused.imp fun _ both => both.1
  · rcases tokenize_settles src with ⟨tokens, read⟩ | ⟨error', fails', inText⟩
    · rw [read] at fails
      cases fails
    · rw [fails'] at fails
      cases fails
      exact inText

end Texts

end Parser

/-- A backslash before a letter of two bytes leaves the lexer between its bytes. -/
theorem Tenths.text_answered_escape :
    Answers (tokenize "\"\\é\"") ∧
      (∀ error, tokenize "\"\\é\"" = .error (.fail error) →
        error.offset ≤ (Utf8.ofString "\"\\é\"").length) ∧
      Answers (Parser.parse Tenths.host "\"\\é\"") ∧
      Answers (Parser.parsePredicate Tenths.host "\"\\é\"") :=
  Parser.text_answered Tenths.host_tellsDepth _

end Factum
