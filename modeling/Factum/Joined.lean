/-
This file is about the tokens of texts that are put on lines of their own.

What the lexer skips and reads depends on the bytes that are left only. So the tokens of a
text are told by its bytes, and a text that leaves no `#date(` and no `#dur(` open has the
same tokens where another text follows it on the next line, before the tokens of that text.
-/

import Factum.Lines
import Factum.RoundTrip

namespace Factum

open Stateful

namespace Lexer

/-! ### Blanks and comments -/

/-- A byte that is skipped between tokens. -/
def isSpaceByte (c : UInt8) : Bool :=
  c == byte ' ' || c == byte '\t' || c == byte '\r' || c == newline

/-- The bytes after blanks and comments, from within a comment or not. -/
def afterBlanks : Bool → List UInt8 → List UInt8
  | _, [] => []
  | true, c :: rest => afterBlanks (c != newline) rest
  | false, c :: rest =>
    if isSpaceByte c then afterBlanks false rest
    else if c == byte ';' then afterBlanks true rest
    else c :: rest

theorem skipSpaces_src : ∀ (src : List UInt8) (pos line col : Nat),
    (skipSpaces src pos line col).src = src.dropWhile isSpaceByte
  | [], _, _, _ => rfl
  | c :: rest, pos, line, col => by
    have split : isSpaceByte c = ((c == byte ' ' || c == byte '\t' || c == byte '\r') ||
        c == byte '\n') := rfl
    rw [skipSpaces, List.dropWhile_cons, split]
    cases c == byte ' ' || c == byte '\t' || c == byte '\r' with
    | true => exact skipSpaces_src rest _ _ _
    | false =>
      cases c == byte '\n' with
      | true => exact skipSpaces_src rest _ _ _
      | false => rfl

theorem afterBlanks_dropWhile : ∀ src : List UInt8,
    afterBlanks false (src.dropWhile isSpaceByte) = afterBlanks false src
  | [] => rfl
  | c :: rest => by
    rw [List.dropWhile_cons]
    split_ifs with isSpace
    · rw [afterBlanks_dropWhile rest, afterBlanks, if_pos isSpace]
    · rfl

/-- A comment is skipped to the end of its line. -/
theorem afterBlanks_comment : ∀ src : List UInt8,
    afterBlanks true src = afterBlanks false (src.dropWhile (· != newline))
  | [] => rfl
  | c :: rest => by
    rw [List.dropWhile_cons]
    cases inLine : c != newline with
    | true =>
      rw [afterBlanks, inLine, if_pos rfl]
      exact afterBlanks_comment rest
    | false =>
      obtain rfl : c = newline := bne_eq_false_iff_eq.mp inLine
      rfl

theorem skipWsAndCommentsLoop_run : ∀ (fuel : Nat) (lexer : Lexer), lexer.src.length < fuel →
    ∃ after, skipWsAndCommentsLoop fuel lexer = .ok () after ∧
      after.src = afterBlanks false lexer.src
  | 0, _, enough => absurd enough (Nat.not_lt_zero _)
  | fuel + 1, lexer, enough => by
    have source := skipSpaces_src lexer.src lexer.pos lexer.line lexer.col
    rw [skipWsAndCommentsLoop, modify_bind_run, peek_bind_run, source,
      ← afterBlanks_dropWhile lexer.src]
    have shorter : (lexer.src.dropWhile isSpaceByte).length ≤ lexer.src.length :=
      (List.dropWhile_suffix _).length_le
    cases source' : lexer.src.dropWhile isSpaceByte with
    | nil => exact ⟨_, rfl, source.trans source'⟩
    | cons c rest =>
      have notSpace : isSpaceByte c = false := by
        have first := List.head?_dropWhile_not isSpaceByte lexer.src
        rw [source'] at first
        exact first
      rw [List.head?_cons, afterBlanks, notSpace]
      cases isComment : c == byte ';' with
      | false =>
        rw [if_neg (by simpa using isComment)]
        exact ⟨_, rfl, source.trans source'⟩
      | true =>
        obtain rfl : c = byte ';' := eq_of_beq isComment
        let spaces := skipSpaces lexer.src lexer.pos lexer.line lexer.col
        have isRest : (spaces.skip (spaces.src.takeWhile (· != byte '\n')).length).src =
            rest.dropWhile (· != newline) := by
          rw [skip, drop_takeWhile, source, source']
          rfl
        have fewer : (rest.dropWhile (· != newline)).length < fuel := by
          have length : (rest.dropWhile (· != newline)).length ≤ rest.length :=
            (List.dropWhile_suffix _).length_le
          rw [source', List.length_cons] at shorter
          omega
        obtain ⟨after, ran, isAfter⟩ := skipWsAndCommentsLoop_run fuel
          (spaces.skip (spaces.src.takeWhile (· != byte '\n')).length) (by rw [isRest]; exact fewer)
        exact ⟨after, ran, by rw [isAfter, isRest, afterBlanks_comment]; rfl⟩

/-- What is between the tokens is skipped. -/
theorem skipWsAndComments_src (lexer : Lexer) :
    ∃ after, skipWsAndComments lexer = .ok () after ∧ after.src = afterBlanks false lexer.src :=
  skipWsAndCommentsLoop_run _ lexer (Nat.lt_succ_self _)

/-- Where blanks and comments are followed by another line, they are those of the first text if
it has tokens left, and else those of the other. -/
theorem afterBlanks_append (more : List UInt8) : ∀ (inComment : Bool) (src : List UInt8),
    afterBlanks inComment (src ++ newline :: more) =
      if afterBlanks inComment src = [] then afterBlanks false more
      else afterBlanks inComment src ++ newline :: more
  | false, [] => rfl
  | true, [] => rfl
  | true, c :: rest => by
    rw [List.cons_append, afterBlanks, afterBlanks]
    exact afterBlanks_append more _ rest
  | false, c :: rest => by
    rw [List.cons_append, afterBlanks, afterBlanks]
    cases isSpaceByte c with
    | true => exact afterBlanks_append more false rest
    | false =>
      cases c == byte ';' with
      | true => exact afterBlanks_append more true rest
      | false => rfl

theorem afterBlanks_length : ∀ (inComment : Bool) (src : List UInt8),
    (afterBlanks inComment src).length ≤ src.length
  | _, [] => by rw [afterBlanks]
  | true, c :: rest => (afterBlanks_length _ rest).trans (Nat.le_succ _)
  | false, c :: rest => by
    rw [afterBlanks]
    split_ifs
    · exact (afterBlanks_length _ rest).trans (Nat.le_succ _)
    · exact (afterBlanks_length _ rest).trans (Nat.le_succ _)
    · exact le_rfl

/-! ### The region of a text -/

theorem Walks.length_le {region last : Region} {lexer after : Lexer}
    (walks : Walks region lexer last after) : after.src.length ≤ lexer.src.length := by
  induction walks with
  | stay => exact le_rfl
  | past _ _ _ inductionHypothesis =>
    rw [step] at inductionHypothesis
    exact inductionHypothesis.trans (List.tail_suffix _).length_le

/-- Over a token the regions are those of its bytes. -/
theorem Walks.foldl_next {region last : Region} {lexer after : Lexer}
    (walks : Walks region lexer last after) :
    lexer.src.foldl next region = after.src.foldl next last := by
  induction walks with
  | stay => rfl
  | past isNext continues _ inductionHypothesis =>
    obtain ⟨tail, source⟩ := List.head?_eq_some_iff.mp isNext
    rw [step, source, List.tail_cons] at inductionHypothesis
    rw [source, List.foldl_cons, next_within continues, inductionHypothesis]

theorem Skips.foldl_next {region last : Region} {lexer after : Lexer}
    (skips : Skips region lexer last after) :
    lexer.src.foldl next region = after.src.foldl next last := by
  induction skips with
  | stay => rfl
  | past isNext starts blank notComment _ inductionHypothesis =>
    obtain ⟨tail, source⟩ := List.head?_eq_some_iff.mp isNext
    rw [past_src, source, List.tail_cons] at inductionHypothesis
    rw [source, List.foldl_cons, next_opening starts, opening_blank blank notComment,
      inductionHypothesis]
  | comment isNext starts walks _ inductionHypothesis =>
    obtain ⟨tail, source⟩ := List.head?_eq_some_iff.mp isNext
    have over_ := walks.foldl_next
    rw [step, source, List.tail_cons] at over_
    rw [source, List.foldl_cons, next_opening starts, ← inductionHypothesis]
    exact over_

/-! ### The tokens of some bytes -/

/-- Some bytes are read as tokens of these kinds, to the end of the input. -/
inductive Lexes : List UInt8 → List TokenKind → Prop
  | done {src : List UInt8} : afterBlanks false src = [] → Lexes src []
  | token {src : List UInt8} {lexer after : Lexer} {tok : Token} {kinds : List TokenKind} :
      lexer.src = afterBlanks false src → lexer.src ≠ [] → nextToken lexer = .ok tok after →
      Lexes after.src kinds → Lexes src (tok.kind :: kinds)

/-- Blanks and comments before the tokens change nothing. -/
theorem Lexes.congr {src src' : List UInt8} {kinds : List TokenKind} (lexes : Lexes src kinds)
    (same : afterBlanks false src' = afterBlanks false src) : Lexes src' kinds := by
  cases lexes with
  | done atEnd => exact .done (same.trans atEnd)
  | token source nonempty ran rest => exact .token (source.trans same.symm) nonempty ran rest

/-- A token takes a byte at least. -/
theorem nextToken_length {lexer after : Lexer} {tok : Token} (nonempty : lexer.src ≠ [])
    (ran : nextToken lexer = .ok tok after) : after.src.length < lexer.src.length := by
  obtain ⟨c, tail, source⟩ := List.exists_cons_of_ne_nil nonempty
  obtain ⟨region, lexeme⟩ := lexeme_nextToken source ran
  have shorter := (lexeme.walks c (by rw [source, List.head?_cons]; rfl)).length_le
  rw [step, source, List.tail_cons] at shorter
  rw [source, List.length_cons]
  exact Nat.lt_succ_of_le shorter

/-- The next token is told by the bytes that are left. -/
theorem nextToken_congr {lexer lexer' after : Lexer} {tok : Token} (nonempty : lexer.src ≠ [])
    (ran : nextToken lexer = .ok tok after) (same : lexer'.src = lexer.src) :
    ∃ tok' after', nextToken lexer' = .ok tok' after' ∧ tok'.kind = tok.kind ∧
      after'.src = after.src := by
  obtain ⟨c, tail, source⟩ := List.exists_cons_of_ne_nil nonempty
  have onto : Onto [] lexer lexer' := by rw [Onto, List.append_nil, same]
  have alike := alike_nextToken ended_nil onto (by rw [source, List.head?_cons])
  cases ran' : nextToken lexer' with
  | ok tok' after' =>
    rw [ran, ran'] at alike
    rcases alike with ⟨sameKind, ontoAfter⟩ | ⟨notNil, _⟩
    · exact ⟨tok', after', rfl, sameKind, by rw [ontoAfter, List.append_nil]⟩
    · exact absurd rfl notNil
  | error stop after' =>
    rw [ran, ran'] at alike
    exact alike.elim False.elim False.elim

/-- What the lexer reads are the tokens of the bytes. -/
theorem lexes_of_tokenizeLoop (limit : Nat) : ∀ (fuel : Nat) (tokens : List Token)
    {lexer after : Lexer} {read : List Token},
    tokenizeLoop limit fuel tokens lexer = .ok read after →
      ∃ own eof, read = tokens ++ own ++ [eof] ∧ eof.kind = .eof ∧
        Lexes lexer.src (own.map (·.kind)) := by
  intro fuel
  induction fuel with
  | zero =>
    intro tokens lexer after read ran
    cases ran
  | succ fuel inductionHypothesis =>
    intro tokens lexer after read ran
    obtain ⟨between, skips, source⟩ := skipWsAndComments_src lexer
    rw [tokenizeLoop, bind_ok skips, get_bind_run] at ran
    split_ifs at ran with isEmpty
    · cases ran
      refine ⟨[], _, by rw [List.append_nil], rfl, .done ?_⟩
      rw [← source]
      exact List.isEmpty_iff.mp isEmpty
    · cases ran
    · obtain ⟨tok, rest, isToken, ran⟩ := bind_eq_ok.mp ran
      obtain ⟨own, eof, rfl, isEof, lexes⟩ := inductionHypothesis _ ran
      refine ⟨tok :: own, eof, by rw [List.append_assoc tokens, List.singleton_append], isEof, ?_⟩
      exact .token source (mt List.isEmpty_iff.mpr isEmpty) isToken lexes

/-- The tokens of the bytes are what the lexer reads, unless they are too many. -/
theorem tokenizeLoop_of_lexes {limit : Nat} {src : List UInt8} {kinds : List TokenKind}
    (lexes : Lexes src kinds) : ∀ (fuel : Nat) (tokens : List Token) (lexer : Lexer),
    lexer.src = src → src.length < fuel → tokens.length + kinds.length ≤ limit →
      ∃ own eof after, tokenizeLoop limit fuel tokens lexer = .ok (tokens ++ own ++ [eof]) after ∧
        own.map (·.kind) = kinds ∧ eof.kind = .eof := by
  induction lexes with
  | @done src atEnd =>
    intro fuel tokens lexer source enough _
    obtain ⟨less, rfl⟩ := Nat.exists_eq_add_one_of_ne_zero (Nat.ne_zero_of_lt enough)
    obtain ⟨between, skips, isRest⟩ := skipWsAndComments_src lexer
    rw [source, atEnd] at isRest
    refine ⟨[], between.token .eof, between, ?_, rfl, rfl⟩
    rw [tokenizeLoop, bind_ok skips, get_bind_run, isRest, List.append_nil]
    rfl
  | @token src first after tok kinds source nonempty isToken _ inductionHypothesis =>
    intro fuel tokens lexer isSource enough fits
    obtain ⟨less, rfl⟩ := Nat.exists_eq_add_one_of_ne_zero (Nat.ne_zero_of_lt enough)
    obtain ⟨between, skips, isRest⟩ := skipWsAndComments_src lexer
    rw [isSource, ← source] at isRest
    obtain ⟨tok', after', isToken', sameKind, sameRest⟩ := nextToken_congr nonempty isToken isRest
    rw [List.length_cons] at fits
    have shorter := nextToken_length nonempty isToken
    have fewer := afterBlanks_length false src
    rw [← source] at fewer
    obtain ⟨own, eof, last, ran, areKinds, isEof⟩ := inductionHypothesis less (tokens ++ [tok'])
      after' sameRest (by omega) (by rw [List.length_append, List.length_singleton]; omega)
    refine ⟨tok' :: own, eof, last, ?_, by rw [List.map_cons, areKinds, sameKind], isEof⟩
    have isEmpty : ¬ between.src.isEmpty = true := by
      rw [isRest, List.isEmpty_iff]
      exact nonempty
    have more : ¬ limit ≤ tokens.length := by omega
    rw [tokenizeLoop, bind_ok skips, get_bind_run, if_neg isEmpty, if_neg more]
    show (nextToken >>= fun tok => tokenizeLoop limit less (tokens ++ [tok])) between = _
    rw [bind_ok isToken', ran, List.append_assoc tokens, List.singleton_append]

theorem Lexes.length_le {src : List UInt8} {kinds : List TokenKind} (lexes : Lexes src kinds) :
    kinds.length ≤ src.length := by
  induction lexes with
  | done => exact Nat.zero_le _
  | @token src lexer after tok kinds source nonempty isToken _ inductionHypothesis =>
    have shorter := nextToken_length nonempty isToken
    have fewer := afterBlanks_length false src
    rw [← source] at fewer
    rw [List.length_cons]
    omega

/-! ### Another text on the next line -/

/-- The region goes on from the first byte of a token. -/
theorem foldl_next_token {region : Region} {src : List UInt8} (closed : Closed region src)
    {lexer : Lexer} (source : lexer.src = afterBlanks false src) {c : UInt8}
    (isNext : lexer.src.head? = some c) :
    src.foldl next region = lexer.step.src.foldl next (opening c) := by
  obtain ⟨between, skips, isRest⟩ := skipWsAndComments_src ⟨src, 0, 1, 1⟩
  rw [skipWsAndComments, get_bind_run] at skips
  obtain ⟨here, skipped, -⟩ := skips_skipWsAndCommentsLoop _ closed skips
  obtain ⟨tail, isSource⟩ := List.head?_eq_some_iff.mp isNext
  have sameSource : between.src = c :: tail := by rw [isRest, ← source, isSource]
  have stops := skipped.closed c (by rw [sameSource]; rfl)
  rw [step, isSource, List.tail_cons]
  refine skipped.foldl_next.trans ?_
  rw [sameSource, List.foldl_cons, next_opening stops]

/-- The tokens of a text that leaves nothing open come before those of the text on the next
line. -/
theorem Lexes.join {src : List UInt8} {kinds : List TokenKind} (lexes : Lexes src kinds) :
    ∀ {region : Region}, Closed region src → src.foldl next region ≠ .form →
      ∀ {more : List UInt8} {kinds' : List TokenKind}, Lexes more kinds' →
        Lexes (src ++ newline :: more) (kinds ++ kinds') := by
  induction lexes with
  | done atEnd =>
    intro _ _ _ more kinds' lexes
    exact lexes.congr (by rw [afterBlanks_append, if_pos atEnd])
  | @token src lexer after tok kinds source nonempty isToken _ inductionHypothesis =>
    intro region closed ends more kinds' lexes
    obtain ⟨c, tail, isSource⟩ := List.exists_cons_of_ne_nil nonempty
    have isNext : lexer.src.head? = some c := by rw [isSource, List.head?_cons]
    rw [foldl_next_token closed source isNext] at ends
    obtain ⟨last, lexeme⟩ := lexeme_nextToken isSource isToken
    rw [(lexeme.walks c isNext).foldl_next] at ends
    have source' : lexer.src ++ newline :: more = afterBlanks false (src ++ newline :: more) := by
      rw [afterBlanks_append, ← source, if_neg nonempty]
    have onto : Onto (newline :: more) lexer { lexer with src := lexer.src ++ newline :: more } :=
      rfl
    have alike := alike_nextToken (ended_newline more) onto isNext
    cases ran : nextToken { lexer with src := lexer.src ++ newline :: more } with
    | ok tok' after' =>
      rw [isToken, ran] at alike
      rcases alike with ⟨sameKind, onto⟩ | ⟨_, _, _, walks, empty, _⟩
      · have rest := inductionHypothesis lexeme.closed ends lexes
        rw [← onto] at rest
        rw [List.cons_append, ← sameKind]
        exact .token source' (by rw [isSource]; exact List.cons_ne_nil _ _) ran rest
      · refine absurd ?_ ends
        rw [← (lexeme.walks c isNext).foldl_next, walks.foldl_next, empty]
        rfl
    | error stop after' =>
      rw [isToken, ran] at alike
      exact alike.elim False.elim False.elim

end Lexer

end Factum
