/-
This file is about the positions of tokens, and about where numbers end.

A text is followed byte by byte through its regions, from its start on. The line of a
token is right as long as no line ends inside an earlier token: the lexer counts a line
only between the tokens, so after a string, a URI, a date or a duration over more lines
it lags behind to the end. A number ends where a byte is next that does not continue it,
and that byte may be one of a word.
-/

import Factum.Regions

namespace Factum

open Lexer

/-! ### Following a text -/

/-- The region before the byte at this offset. -/
def regionAt (bytes : List UInt8) (offset : Nat) : Region := (bytes.take offset).foldl next .gap

/-- The line of this offset: one more than the newlines before it. -/
def lineAt (bytes : List UInt8) (offset : Nat) : Nat := 1 + (bytes.take offset).count newline

/-- The column of this offset: one more than the bytes since the last newline. -/
def columnAt (bytes : List UInt8) (offset : Nat) : Nat :=
  1 + ((bytes.take offset).reverse.takeWhile (· != newline)).length

section Following

variable {bytes : List UInt8} {offset : Nat} {c : UInt8}

theorem take_next (isNext : bytes[offset]? = some c) :
    bytes.take (offset + 1) = bytes.take offset ++ [c] := by
  rw [List.take_add_one, isNext]
  rfl

theorem regionAt_next (isNext : bytes[offset]? = some c) :
    regionAt bytes (offset + 1) = next (regionAt bytes offset) c := by
  rw [regionAt, take_next isNext, List.foldl_append]
  rfl

theorem lineAt_next (isNext : bytes[offset]? = some c) :
    lineAt bytes (offset + 1) = lineAt bytes offset + if c = newline then 1 else 0 := by
  rw [lineAt, take_next isNext, List.count_append, List.count_singleton, lineAt, Nat.add_assoc]
  simp

theorem columnAt_next (isNext : bytes[offset]? = some c) :
    columnAt bytes (offset + 1) = if c = newline then 1 else columnAt bytes offset + 1 := by
  rw [columnAt, take_next isNext, List.reverse_append, List.reverse_singleton,
    List.singleton_append, List.takeWhile_cons]
  by_cases isNewline : c = newline
  · simp [isNewline]
  · simp [isNewline, columnAt, Nat.add_assoc]

end Following

/-- Something holds of each byte from this offset on, with the region before it. -/
def Onward (holds : Nat → Region → UInt8 → Prop) (bytes : List UInt8) (offset : Nat) : Prop :=
  ∀ k c, offset ≤ k → bytes[k]? = some c → holds k (regionAt bytes k) c

theorem onward_next {holds : Nat → Region → UInt8 → Prop} {bytes : List UInt8} {offset : Nat}
    {c : UInt8} (isNext : bytes[offset]? = some c) :
    Onward holds bytes offset ↔
      holds offset (regionAt bytes offset) c ∧ Onward holds bytes (offset + 1) := by
  constructor
  · intro onward
    exact ⟨onward offset c le_rfl isNext, fun k d after => onward k d (Nat.le_of_succ_le after)⟩
  · rintro ⟨first, onward⟩ k d after isByte
    rcases Nat.eq_or_lt_of_le after with rfl | later
    · obtain rfl := Option.some.inj (isNext.symm.trans isByte)
      exact first
    · exact onward k d later isByte

theorem onward_end (holds : Nat → Region → UInt8 → Prop) (bytes : List UInt8) :
    Onward holds bytes bytes.length := by
  intro k c after isByte
  rw [List.getElem?_eq_none after] at isByte
  cases isByte

/-- The lexer is at its position in the text, in this region. -/
structure Stands (bytes : List UInt8) (region : Region) (lexer : Lexer) : Prop where
  rest : bytes.drop lexer.pos = lexer.src
  inText : lexer.pos ≤ bytes.length
  region_eq : regionAt bytes lexer.pos = region

section Stands

variable {bytes : List UInt8} {region last : Region} {lexer after : Lexer} {c : UInt8}

theorem Stands.getElem? (stands : Stands bytes region lexer) (isNext : lexer.src.head? = some c) :
    bytes[lexer.pos]? = some c := by
  rw [← List.head?_drop, stands.rest, isNext]

theorem Stands.next (stands : Stands bytes region lexer) (isNext : lexer.src.head? = some c)
    (isTail : after.src = lexer.src.tail) (isPos : after.pos = lexer.pos + 1) :
    Stands bytes (next region c) after where
  rest := by rw [isTail, isPos, ← stands.rest, List.tail_drop]
  inText := by
    have within := List.getElem?_eq_some_iff.mp (stands.getElem? isNext)
    rw [isPos]
    exact within.1
  region_eq := by rw [isPos, regionAt_next (stands.getElem? isNext), stands.region_eq]

theorem Stands.step (stands : Stands bytes region lexer) (isNext : lexer.src.head? = some c) :
    Stands bytes (Lexer.next region c) lexer.step :=
  stands.next isNext rfl rfl

theorem Stands.atEnd (stands : Stands bytes region lexer) (isEnd : lexer.src = []) :
    lexer.pos = bytes.length := by
  have rest := stands.rest
  rw [isEnd, List.drop_eq_nil_iff] at rest
  exact Nat.le_antisymm stands.inText rest

theorem stands_new (src : String) : Stands (Utf8.bytes src.toList) .gap (.new src) :=
  ⟨rfl, Nat.zero_le _, rfl⟩

theorem next_within {region' : Region} (continues : within region c = some region') :
    next region c = region' := by rw [next, continues, Option.getD_some]

theorem next_opening (stops : within region c = none) : next region c = opening c := by
  rw [next, stops, Option.getD_none]

theorem Stands.past (stands : Stands bytes region lexer) (isNext : lexer.src.head? = some c)
    (stops : within region c = none) : Stands bytes (opening c) (lexer.past c) := by
  rw [← next_opening stops]
  exact stands.next isNext (past_src lexer c) (past_pos lexer c)

theorem Stands.opens (stands : Stands bytes region lexer) (isNext : lexer.src.head? = some c)
    (stops : within region c = none) : Stands bytes (opening c) lexer.step := by
  rw [← next_opening stops]
  exact stands.step isNext

theorem opening_blank (blank : isBlank c = true) (notComment : c ≠ byte ';') :
    opening c = .gap := by
  simp only [isBlank, Bool.or_eq_true, beq_iff_eq, newline] at blank
  rcases blank with (((rfl | rfl) | rfl) | rfl) | rfl
  all_goals first | rfl | exact absurd rfl notComment

end Stands

/-! ### Over tokens and blanks -/

section Over

variable {bytes : List UInt8} {region last : Region} {lexer after : Lexer}
  {holds : Nat → Region → UInt8 → Prop}

/-- Over a part of a token, nothing is found if nothing is found of the bytes that continue
its regions. -/
theorem Lexer.Walks.onward {good : Region → Prop}
    (free : ∀ region c region', good region → within region c = some region' →
      good region' ∧ ∀ k, holds k region c)
    (walks : Walks region lexer last after) (isGood : good region)
    (stands : Stands bytes region lexer) :
    Stands bytes last after ∧ (Onward holds bytes lexer.pos ↔ Onward holds bytes after.pos) := by
  induction walks with
  | stay => exact ⟨stands, Iff.rfl⟩
  | past isNext continues _ inductionHypothesis =>
    have stands' := stands.step isNext
    rw [next_within continues] at stands'
    obtain ⟨isGood', here⟩ := free _ _ _ isGood continues
    obtain ⟨standsLast, onward⟩ := inductionHypothesis isGood' stands'
    refine ⟨standsLast, (onward_next (stands.getElem? isNext)).trans ?_⟩
    rw [stands.region_eq, and_iff_right (here _)]
    exact onward

theorem Lexer.Skips.onward
    (comment : ∀ k c, within .comment c = some .comment → holds k .comment c)
    (blank : ∀ k region c, isBlank c = true → within region c = none → holds k region c)
    (skips : Skips region lexer last after) (stands : Stands bytes region lexer) :
    Stands bytes last after ∧ (Onward holds bytes lexer.pos ↔ Onward holds bytes after.pos) := by
  induction skips with
  | stay => exact ⟨stands, Iff.rfl⟩
  | past isNext stops isBlank notComment _ inductionHypothesis =>
    have stands' := stands.past isNext stops
    rw [opening_blank isBlank notComment] at stands'
    obtain ⟨standsLast, onward⟩ := inductionHypothesis stands'
    refine ⟨standsLast, (onward_next (stands.getElem? isNext)).trans ?_⟩
    rw [stands.region_eq, and_iff_right (blank _ _ _ isBlank stops)]
    rw [past_pos] at onward
    exact onward
  | comment isNext stops walks _ inductionHypothesis =>
    have inComment : ∀ region c region', region = .comment → within region c = some region' →
        region' = .comment ∧ ∀ k, holds k region c := by
      rintro region c region' rfl continues
      have same : region' = .comment := by
        rw [within] at continues
        split_ifs at continues
        exact (Option.some.inj continues).symm
      rw [same] at continues
      exact ⟨same, fun k => comment k c continues⟩
    obtain ⟨standsComment, past⟩ := walks.onward inComment rfl (stands.opens isNext stops)
    obtain ⟨standsLast, onward⟩ := inductionHypothesis standsComment
    refine ⟨standsLast, (onward_next (stands.getElem? isNext)).trans ?_⟩
    rw [stands.region_eq, and_iff_right (blank _ _ _ rfl stops)]
    exact past.trans onward

end Over

/-! ### Lines and columns -/

/-- The lexer counts lines and columns in 32 bits. -/
def Fits (bytes : List UInt8) (offset : Nat) : Prop :=
  lineAt bytes offset < 2 ^ 32 ∧ columnAt bytes offset < 2 ^ 32

/-- A token has the line and the column of its first byte. -/
def RightlyPlaced (bytes : List UInt8) (tok : Token) : Prop :=
  tok.line % 2 ^ 32 = lineAt bytes tok.offset ∧ tok.col % 2 ^ 32 = columnAt bytes tok.offset

/-- What is asked of a byte: no line ends inside a token, and each token starts where the
position fits. -/
def KeepsPlace (bytes : List UInt8) (offset : Nat) (region : Region) (c : UInt8) : Prop :=
  (c = newline → within region c = none) ∧ (starts region c = true → Fits bytes offset)

/-- The lexer has the line and the column of its position. -/
structure Placed (bytes : List UInt8) (lexer : Lexer) : Prop where
  rest : bytes.drop lexer.pos = lexer.src
  line : lexer.line = lineAt bytes lexer.pos
  col : lexer.col = columnAt bytes lexer.pos

/-- The lexer is behind the line of its position. -/
structure Late (bytes : List UInt8) (lexer : Lexer) : Prop where
  rest : bytes.drop lexer.pos = lexer.src
  line : lexer.line < lineAt bytes lexer.pos

section Places

variable {bytes : List UInt8} {region last : Region} {lexer after : Lexer} {c : UInt8}

theorem getElem?_of_rest (rest : bytes.drop lexer.pos = lexer.src)
    (isNext : lexer.src.head? = some c) : bytes[lexer.pos]? = some c := by
  rw [← List.head?_drop, rest, isNext]

theorem rest_step (rest : bytes.drop lexer.pos = lexer.src) :
    bytes.drop (lexer.pos + 1) = lexer.src.tail := by rw [← rest, List.tail_drop]

theorem Placed.step (placed : Placed bytes lexer) (isNext : lexer.src.head? = some c)
    (inLine : c ≠ newline) : Placed bytes lexer.step where
  rest := rest_step placed.rest
  line := by
    rw [step_pos, lineAt_next (getElem?_of_rest placed.rest isNext), if_neg inLine]
    exact placed.line
  col := by
    rw [step_pos, columnAt_next (getElem?_of_rest placed.rest isNext), if_neg inLine, ← placed.col]
    rfl

theorem Placed.past (placed : Placed bytes lexer) (isNext : lexer.src.head? = some c) :
    Placed bytes (lexer.past c) := by
  by_cases isNewline : c = newline
  · rw [Lexer.past, if_pos (beq_iff_eq.mpr isNewline)]
    have isByte := getElem?_of_rest placed.rest isNext
    refine ⟨rest_step placed.rest, ?_, ?_⟩
    · show lexer.line + 1 = lineAt bytes (lexer.pos + 1)
      rw [lineAt_next isByte, if_pos isNewline, placed.line]
    · show 1 = columnAt bytes (lexer.pos + 1)
      rw [columnAt_next isByte, if_pos isNewline]
  · rw [Lexer.past, if_neg (mt beq_iff_eq.mp isNewline)]
    exact placed.step isNext isNewline

theorem Late.step (late : Late bytes lexer) (isNext : lexer.src.head? = some c) :
    Late bytes lexer.step where
  rest := rest_step late.rest
  line := by
    rw [step_pos, lineAt_next (getElem?_of_rest late.rest isNext)]
    exact Nat.lt_add_right _ late.line

/-- A line that ends inside a token is not counted. -/
theorem Placed.late (placed : Placed bytes lexer) (isNext : lexer.src.head? = some newline) :
    Late bytes lexer.step where
  rest := rest_step placed.rest
  line := by
    rw [step_pos, lineAt_next (getElem?_of_rest placed.rest isNext), if_pos rfl, ← placed.line]
    exact Nat.lt_succ_self _

theorem Late.past (late : Late bytes lexer) (isNext : lexer.src.head? = some c) :
    Late bytes (lexer.past c) := by
  by_cases isNewline : c = newline
  · rw [Lexer.past, if_pos (beq_iff_eq.mpr isNewline)]
    refine ⟨rest_step late.rest, ?_⟩
    show lexer.line + 1 < lineAt bytes (lexer.pos + 1)
    rw [lineAt_next (getElem?_of_rest late.rest isNext), if_pos isNewline]
    exact Nat.succ_lt_succ late.line
  · rw [Lexer.past, if_neg (mt beq_iff_eq.mp isNewline)]
    exact late.step isNext

theorem inLine_of_comment (continues : within .comment c = some last) : c ≠ newline := by
  rintro rfl
  cases continues

/-- What blanks and the bytes of a comment keep is kept over all blanks and comments. -/
theorem Lexer.Skips.keeps {holds : Lexer → Prop}
    (step : ∀ {lexer c}, lexer.src.head? = some c → c ≠ newline → holds lexer → holds lexer.step)
    (past : ∀ {lexer c}, lexer.src.head? = some c → holds lexer → holds (lexer.past c))
    (skips : Skips region lexer last after) (here : holds lexer) : holds after := by
  induction skips with
  | stay => exact here
  | past isNext _ _ _ _ inductionHypothesis => exact inductionHypothesis (past isNext here)
  | comment isNext _ walks _ inductionHypothesis =>
    refine inductionHypothesis ?_
    have inComment : ∀ {region last lexer after}, Walks region lexer last after →
        region = .comment → holds lexer → holds after := by
      intro region last lexer after walks
      induction walks with
      | stay => exact fun _ here => here
      | past isNext continues _ inductionHypothesis =>
        rintro rfl here
        have inLine := inLine_of_comment continues
        rw [within] at continues
        split_ifs at continues
        exact inductionHypothesis (Option.some.inj continues).symm (step isNext inLine here)
    exact inComment walks rfl (step isNext (by decide) here)

theorem Late.walks (walks : Walks region lexer last after) (late : Late bytes lexer) :
    Late bytes after := by
  induction walks with
  | stay => exact late
  | past isNext _ _ inductionHypothesis => exact inductionHypothesis (late.step isNext)

/-- Over a token, the lexer keeps its place, or a line ends inside it and the lexer is late. -/
theorem Placed.walks (walks : Walks region lexer last after) (placed : Placed bytes lexer)
    (stands : Stands bytes region lexer) :
    (Placed bytes after ∧ Stands bytes last after ∧
      (Onward (KeepsPlace bytes) bytes lexer.pos ↔
        Onward (KeepsPlace bytes) bytes after.pos)) ∨
    (Late bytes after ∧ ¬ Onward (KeepsPlace bytes) bytes lexer.pos) := by
  induction walks with
  | stay => exact .inl ⟨placed, stands, Iff.rfl⟩
  | @past region region' _ c lexer _ isNext continues walks inductionHypothesis =>
    have stands' := stands.step isNext
    rw [next_within continues] at stands'
    have here : Onward (KeepsPlace bytes) bytes lexer.pos ↔ _ :=
      onward_next (stands.getElem? isNext)
    rw [stands.region_eq] at here
    by_cases isNewline : c = newline
    · right
      subst isNewline
      refine ⟨(placed.late isNext).walks walks, fun onward => ?_⟩
      have stops := (here.mp onward).1.1 rfl
      rw [continues] at stops
      cases stops
    · have free : KeepsPlace bytes lexer.pos region c := by
        refine ⟨fun same => absurd same isNewline, fun isStart => ?_⟩
        rw [starts, continues] at isStart
        cases isStart
      rw [and_iff_right free] at here
      rw [here]
      exact inductionHypothesis (placed.step isNext isNewline) stands'

theorem Lexer.Skips.keepsPlace (skips : Skips region lexer last after)
    (stands : Stands bytes region lexer) : Stands bytes last after ∧
      (Onward (KeepsPlace bytes) bytes lexer.pos ↔ Onward (KeepsPlace bytes) bytes after.pos) := by
  refine skips.onward (fun k c continues => ⟨fun _ => ?_, fun isStart => ?_⟩)
    (fun k region c blank stops => ⟨fun _ => stops, fun isStart => ?_⟩) stands
  · exact absurd ‹c = newline› (inLine_of_comment continues)
  · rw [starts, continues] at isStart
    cases isStart
  · rw [starts, blank, Bool.not_true, Bool.and_false] at isStart
    cases isStart

theorem Late.wrong (late : Late bytes lexer) (kind : TokenKind) :
    ¬ RightlyPlaced bytes (lexer.token kind) := by
  rintro ⟨same, _⟩
  have less : lexer.line % 2 ^ 32 ≤ lexer.line := Nat.mod_le _ _
  exact absurd late.line (Nat.not_lt.mpr (same ▸ less))

theorem Placed.rightlyPlaced_iff (placed : Placed bytes lexer) (kind : TokenKind) :
    RightlyPlaced bytes (lexer.token kind) ↔ Fits bytes lexer.pos := by
  have mod_iff : ∀ n : Nat, n % 2 ^ 32 = n ↔ n < 2 ^ 32 :=
    fun n => Nat.mod_eq_iff_lt (by decide)
  show lexer.line % 2 ^ 32 = lineAt bytes lexer.pos ∧
    lexer.col % 2 ^ 32 = columnAt bytes lexer.pos ↔ _
  rw [placed.line, placed.col, mod_iff, mod_iff, Fits]

/-- The last token of a lexer that is late is not placed rightly. -/
theorem Late.laid {tokens : List Token} (laid : Laid region lexer tokens)
    (late : Late bytes lexer) : ∃ tok ∈ tokens, ¬ RightlyPlaced bytes tok := by
  induction laid with
  | eof skips =>
    have late := skips.keeps (fun isNext _ late => late.step isNext)
      (fun isNext late => Late.past late isNext) late
    exact ⟨_, List.mem_cons_self, late.wrong _⟩
  | token skips isNext _ lexeme _ inductionHypothesis =>
    have late := skips.keeps (fun isNext _ late => late.step isNext)
      (fun isNext late => Late.past late isNext) late
    obtain ⟨tok, member, wrong⟩ :=
      inductionHypothesis ((late.step isNext).walks (lexeme.walks _ isNext))
    exact ⟨tok, List.mem_cons_of_mem _ member, wrong⟩

/-- All tokens are placed rightly where each byte keeps its place. -/
theorem Placed.laid_iff {tokens : List Token} (laid : Laid region lexer tokens)
    (placed : Placed bytes lexer) (stands : Stands bytes region lexer) :
    (∀ tok ∈ tokens, RightlyPlaced bytes tok) ↔
      Onward (KeepsPlace bytes) bytes lexer.pos ∧ Fits bytes bytes.length := by
  induction laid with
  | eof skips isEnd =>
    have placed := skips.keeps (fun isNext inLine placed => placed.step isNext inLine)
      (fun isNext placed => Placed.past placed isNext) placed
    obtain ⟨stands, onward⟩ := skips.keepsPlace stands
    rw [onward, stands.atEnd isEnd, and_iff_right (onward_end _ bytes), List.forall_mem_singleton,
      placed.rightlyPlaced_iff, stands.atEnd isEnd]
  | @token region here last lexer between after c tok tokens skips isNext notBlank lexeme laid
      inductionHypothesis =>
    have placed := skips.keeps (fun isNext inLine placed => placed.step isNext inLine)
      (fun isNext placed => Placed.past placed isNext) placed
    obtain ⟨stands, onward⟩ := skips.keepsPlace stands
    have stops := skips.closed c isNext
    have inLine : c ≠ newline := by
      rintro rfl
      cases notBlank
    have opens : KeepsPlace bytes between.pos here c ↔ Fits bytes between.pos := by
      have isStart : starts here c = true := by rw [starts, stops, notBlank]; rfl
      rw [KeepsPlace, and_iff_right (fun same => absurd same inLine)]
      exact ⟨fun fits => fits isStart, fun fits _ => fits⟩
    rw [onward, onward_next (stands.getElem? isNext), stands.region_eq, opens,
      List.forall_mem_cons, lexeme.placed, placed.rightlyPlaced_iff, and_assoc]
    refine and_congr_right fun _ => ?_
    have stands' := stands.opens isNext stops
    have placed' := placed.step isNext inLine
    rcases placed'.walks (lexeme.walks c isNext) stands' with
      ⟨placed, stands, past⟩ | ⟨late, notKept⟩
    · rw [step_pos] at past
      rw [past]
      exact inductionHypothesis placed stands
    · obtain ⟨tok, member, wrong⟩ := late.laid laid
      exact ⟨fun all => absurd (all tok member) wrong, fun kept => absurd kept.1 notKept⟩

end Places

/-! ### Offsets -/

/-- The lexer does not go back over a token. -/
theorem Lexer.Walks.pos_le {region last : Region} {lexer after : Lexer}
    (walks : Walks region lexer last after) : lexer.pos ≤ after.pos := by
  induction walks with
  | stay => exact le_rfl
  | past _ _ _ inductionHypothesis => exact Nat.le_of_succ_le inductionHypothesis

theorem Lexer.Skips.pos_le {region last : Region} {lexer after : Lexer}
    (skips : Skips region lexer last after) : lexer.pos ≤ after.pos := by
  induction skips with
  | stay => exact le_rfl
  | past _ _ _ _ _ inductionHypothesis =>
    rw [past_pos] at inductionHypothesis
    exact Nat.le_of_succ_le inductionHypothesis
  | comment _ _ walks _ inductionHypothesis =>
    exact (Nat.le_of_succ_le walks.pos_le).trans inductionHypothesis

/-- The tokens follow each other, and the end of the text comes last and only there. -/
theorem Lexer.Laid.ordered {region : Region} {lexer : Lexer} {tokens : List Token}
    (laid : Laid region lexer tokens) : (∀ tok ∈ tokens, lexer.pos ≤ tok.offset) ∧
      tokens.Pairwise (fun tok tok' => tok.offset < tok'.offset) ∧
      ∃ front last, tokens = front ++ [last] ∧ last.kind = .eof ∧
        ∀ tok ∈ front, tok.kind ≠ .eof := by
  induction laid with
  | eof skips =>
    refine ⟨fun tok member => ?_, List.pairwise_singleton _ _, [], _, rfl, rfl, nofun⟩
    rw [List.mem_singleton.mp member]
    exact skips.pos_le
  | @token region here last lexer between after c tok tokens skips isNext notBlank lexeme laid
      inductionHypothesis =>
    obtain ⟨later, ordered, front, end_, rfl, isEnd, notEnd⟩ := inductionHypothesis
    have isOffset : tok.offset = between.pos := by rw [lexeme.placed]; rfl
    have onward : between.pos < after.pos := (lexeme.walks c isNext).pos_le
    refine ⟨fun tok' member => ?_, List.pairwise_cons.mpr ⟨fun tok' member => ?_, ordered⟩,
      tok :: front, end_, rfl, isEnd, fun tok' member => ?_⟩
    · rcases List.mem_cons.mp member with rfl | inRest
      · exact isOffset ▸ skips.pos_le
      · exact skips.pos_le.trans (onward.le.trans (later tok' inRest))
    · rw [isOffset]
      exact onward.trans_le (later tok' member)
    · rcases List.mem_cons.mp member with rfl | inFront
      · exact lexeme.notEof
      · exact notEnd tok' inFront

/-- Each token has the line and the column of its first byte, the tokens follow each other,
and the end of the text comes last and only there. -/
structure PositionsRight (src : String) (tokens : List Token) : Prop where
  placed : ∀ tok ∈ tokens, RightlyPlaced (Utf8.ofString src) tok
  increasing : tokens.Pairwise fun tok tok' => tok.offset < tok'.offset
  lastEof : ∃ front last, tokens = front ++ [last] ∧ last.kind = .eof ∧
    ∀ tok ∈ front, tok.kind ≠ .eof

/-- The positions of a text are right if and only if no line ends inside a token, and each
token starts, and the text ends, at a line and a column below 2 ^ 32. -/
theorem positionsRight_iff {src : String} {tokens : List Token}
    (read : tokenize src = .ok tokens) : PositionsRight src tokens ↔
      Onward (KeepsPlace (Utf8.ofString src)) (Utf8.ofString src) 0 ∧
        Fits (Utf8.ofString src) (Utf8.ofString src).length := by
  have laid := laid_of_tokenize read
  have placed : Placed (Utf8.ofString src) (.new src) := ⟨rfl, rfl, rfl⟩
  obtain ⟨_, increasing, lastEof⟩ := laid.ordered
  refine Iff.trans ?_ (placed.laid_iff laid (stands_new src))
  exact ⟨fun right => right.placed, fun placed => ⟨placed, increasing, lastEof⟩⟩

/-- A text of two lines. -/
theorem positionsRight_two_lines :
    PositionsRight "a\nb" [⟨.symbol "a", 0, 1, 1⟩, ⟨.symbol "b", 2, 2, 1⟩, ⟨.eof, 3, 2, 2⟩] ↔
      Onward (KeepsPlace (Utf8.ofString "a\nb")) (Utf8.ofString "a\nb") 0 ∧
        Fits (Utf8.ofString "a\nb") (Utf8.ofString "a\nb").length :=
  positionsRight_iff (by decide +kernel)

/-- After a string over two lines, the line of a token is wrong. -/
theorem positions_wrong :
    ¬ ∀ src tokens, tokenize src = .ok tokens → PositionsRight src tokens := by
  intro right
  have read : tokenize "\"a\nb\" c" =
      .ok [⟨.str "a\nb", 0, 1, 1⟩, ⟨.symbol "c", 6, 1, 7⟩, ⟨.eof, 7, 1, 8⟩] := by decide +kernel
  have placed := (right _ _ read).placed ⟨.symbol "c", 6, 1, 7⟩ (by simp)
  exact absurd placed.1 (by decide +kernel)

/-! ### Where numbers end -/

/-- A byte that continues a word. -/
def isWordByte (c : UInt8) : Bool :=
  isAsciiAlphanumeric c || c == byte '-' || c == byte '_' || c == byte '.' || c == byte '/' ||
    0x80 ≤ c

/-- What is asked of a byte: it does not continue a word if it ends a number. -/
def EndsNumber (_ : Nat) (region : Region) (c : UInt8) : Prop :=
  region.isNumber = true → within region c = none → isWordByte c = false

/-- No byte of a word directly follows a number. -/
def NumbersEnd (bytes : List UInt8) (tokens : List Token) : Prop :=
  ∀ tok ∈ tokens, ∀ text, tok.kind = .number text →
    ∀ c, bytes[tok.offset + text.length]? = some c → isWordByte c = false

section Numbers

variable {bytes : List UInt8} {region last : Region} {lexer after : Lexer}

theorem not_isWordByte_of_isBlank {c : UInt8} (blank : isBlank c = true) :
    isWordByte c = false := by
  simp only [isBlank, Bool.or_eq_true, beq_iff_eq, newline] at blank
  rcases blank with (((rfl | rfl) | rfl) | rfl) | rfl
  all_goals rfl

/-- If the lexer is after a number here, no byte of a word is next. -/
def EndsHere (region : Region) (lexer : Lexer) : Prop :=
  ∀ c ∈ lexer.src.head?, region.isNumber = true → isWordByte c = false

theorem Lexer.Skips.endsHere (skips : Skips region lexer last after) :
    EndsHere region lexer ↔ EndsHere last after := by
  have outside : ∀ {region lexer}, region.isNumber = false → EndsHere region lexer := by
    intro region lexer notNumber c _ number
    rw [notNumber] at number
    cases number
  have atBlank : ∀ {region lexer c}, lexer.src.head? = some c → isBlank c = true →
      EndsHere region lexer := by
    intro region lexer c isNext blank d isNext' _
    obtain rfl := Option.some.inj (isNext.symm.trans isNext')
    exact not_isWordByte_of_isBlank blank
  induction skips with
  | stay => exact Iff.rfl
  | past isNext _ blank _ _ inductionHypothesis =>
    exact (iff_of_true (atBlank isNext blank) (outside rfl)).trans inductionHypothesis
  | comment isNext _ _ _ inductionHypothesis =>
    exact (iff_of_true (atBlank isNext rfl) (outside rfl)).trans inductionHypothesis

theorem Lexer.Laid.ends_iff {tokens : List Token} (laid : Laid region lexer tokens)
    (stands : Stands bytes region lexer) :
    EndsHere region lexer ∧ NumbersEnd bytes tokens ↔ Onward EndsNumber bytes lexer.pos := by
  have comment : ∀ k c, within .comment c = some .comment → EndsNumber k .comment c :=
    fun _ _ _ number => by cases number
  have blank : ∀ k region c, isBlank c = true → within region c = none → EndsNumber k region c :=
    fun _ _ _ blank _ _ _ => not_isWordByte_of_isBlank blank
  induction laid with
  | @eof region last lexer after skips isEnd =>
    obtain ⟨stands, onward⟩ := skips.onward comment blank stands
    rw [onward, stands.atEnd isEnd, skips.endsHere]
    refine iff_of_true ⟨fun c isNext => ?_, fun tok member text isNumber => ?_⟩ (onward_end _ bytes)
    · rw [isEnd] at isNext
      cases isNext
    · rw [List.mem_singleton.mp member] at isNumber
      cases isNumber
  | @token region here last lexer between after c tok tokens skips isNext notBlank lexeme laid
      inductionHypothesis =>
    obtain ⟨stands, onward⟩ := skips.onward comment blank stands
    have stops := skips.closed c isNext
    have first : EndsNumber between.pos here c ↔ EndsHere here between := by
      refine ⟨fun ends d isNext' number => ?_, fun ends number _ => ends c isNext number⟩
      obtain rfl := Option.some.inj (isNext.symm.trans isNext')
      exact ends number stops
    have free : ∀ region c region', True → within region c = some region' →
        True ∧ ∀ k, EndsNumber k region c := by
      intro region c region' _ continues
      refine ⟨trivial, fun _ _ stops => ?_⟩
      rw [continues] at stops
      cases stops
    obtain ⟨standsAfter, past⟩ :=
      (lexeme.walks c isNext).onward free trivial (stands.opens isNext stops)
    rw [onward, onward_next (stands.getElem? isNext), stands.region_eq, first, skips.endsHere]
    refine and_congr_right fun _ => ?_
    refine Iff.trans ?_ ((inductionHypothesis standsAfter).trans past.symm)
    rw [NumbersEnd, List.forall_mem_cons]
    refine and_congr_left fun _ => ?_
    have isOffset : tok.offset = between.pos := by rw [lexeme.placed]; rfl
    constructor
    · intro ends d isNext' number
      obtain ⟨text, isText⟩ := lexeme.number number
      refine ends text isText d ?_
      rw [isOffset, ← (lexeme.ofNumber text isText).2]
      exact standsAfter.getElem? isNext'
    · intro ends text isText d isByte
      obtain ⟨number, isEnd⟩ := lexeme.ofNumber text isText
      rw [isOffset, ← isEnd, ← List.head?_drop, standsAfter.rest] at isByte
      exact ends d isByte number

end Numbers

/-- No number of a text splits a word if and only if no byte that ends a number continues
a word. -/
theorem numbersEnd_iff {src : String} {tokens : List Token} (read : tokenize src = .ok tokens) :
    NumbersEnd (Utf8.ofString src) tokens ↔ Onward EndsNumber (Utf8.ofString src) 0 := by
  have ends : EndsHere .gap (.new src) := fun _ _ number => by cases number
  refine Iff.trans ?_ ((laid_of_tokenize read).ends_iff (stands_new src))
  exact ⟨fun numbers => ⟨ends, numbers⟩, And.right⟩

/-- A number before a closing bracket. -/
theorem numbersEnd_in_brackets :
    NumbersEnd (Utf8.ofString "[5]")
        [⟨.lBracket, 0, 1, 1⟩, ⟨.number "5", 1, 1, 2⟩, ⟨.rBracket, 2, 1, 3⟩, ⟨.eof, 3, 1, 4⟩] ↔
      Onward EndsNumber (Utf8.ofString "[5]") 0 :=
  numbersEnd_iff (by decide +kernel)

/-- A word that starts with digits is read as a number and a symbol. -/
theorem number_splits_word :
    ¬ ∀ src tokens, tokenize src = .ok tokens → NumbersEnd (Utf8.ofString src) tokens := by
  intro ends
  have read : tokenize "12abc" =
      .ok [⟨.number "12", 0, 1, 1⟩, ⟨.symbol "abc", 2, 1, 3⟩, ⟨.eof, 5, 1, 6⟩] := by decide +kernel
  have word := ends _ _ read ⟨.number "12", 0, 1, 1⟩ List.mem_cons_self "12" rfl (byte 'a')
    (by decide +kernel)
  exact absurd word (by decide)

end Factum
