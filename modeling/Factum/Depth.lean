/-
This file is about how deep the parser goes and that it comes to an end.

A run of the parser is tracked along with two others: one that watches the depth counter at
each call that goes a level down, and one that stops where the counter would get beyond the
limit. From tokens that end in the only end of input each method comes to an end with the
fuel that it is given, and before the end of input. The watched run is the same, and the
stopping run is the same unless the limit is reported.
-/

import Factum.Forms
import Factum.Watched

namespace Factum

open Stateful

/-! ### Errors of the depth -/

/-- The text of an error of `check_depth`. -/
def DepthText (message : String) : Prop := "DepthLimitExceeded".toList <+: message.toList

instance (message : String) : Decidable (DepthText message) :=
  inferInstanceAs (Decidable (_ <+: _))

/-- A host whose errors are not those of the parser's depth. -/
structure Host.TellsDepth {F : Type} (host : Host F) : Prop where
  f32_text : ∀ text message, host.f32FromStr text = .error message → ¬ DepthText message
  date_text : ∀ text message, host.dateFromStr text = .error message → ¬ DepthText message
  datetime_text : ∀ text message, host.datetimeFromStr text = .error message → ¬ DepthText message

/-- A text that starts with another letter. -/
def StartsOtherwise (message : String) : Prop := message.toList.head?.any (· != 'D') = true

instance (message : String) : Decidable (StartsOtherwise message) :=
  inferInstanceAs (Decidable (_ = _))

theorem StartsOtherwise.append {front : String} (starts : StartsOtherwise front) (back : String) :
    StartsOtherwise (front ++ back) := by
  unfold StartsOtherwise at *
  rw [String.toList_append]
  cases isText : front.toList with
  | nil =>
    rw [isText] at starts
    cases starts
  | cons c rest => rwa [isText] at starts

theorem DepthText.append {front : String} (isText : DepthText front) (back : String) :
    DepthText (front ++ back) := by
  rw [DepthText, String.toList_append]
  exact isText.trans (List.prefix_append _ _)

theorem StartsOtherwise.not_depthText {message : String} (starts : StartsOtherwise message) :
    ¬ DepthText message := by
  rintro ⟨rest, isText⟩
  rw [StartsOtherwise, ← isText] at starts
  cases starts

namespace Parser

/-! ### Tracking a run -/

/-- The tokens end in the end of the input, and it is the only one. -/
def EndsInEof (kinds : List TokenKind) : Prop := ∃ front, kinds = front ++ [.eof] ∧ .eof ∉ front

theorem EndsInEof.ne_nil {kinds : List TokenKind} (ends : EndsInEof kinds) : kinds ≠ [] := by
  obtain ⟨front, rfl, -⟩ := ends
  exact List.append_ne_nil_of_right_ne_nil front (List.cons_ne_nil _ _)

theorem EndsInEof.tail {kind : TokenKind} {rest : List TokenKind} (notEof : kind ≠ .eof)
    (ends : EndsInEof (kind :: rest)) : EndsInEof rest := by
  obtain ⟨front, isKinds, only⟩ := ends
  cases front with
  | nil => exact absurd (List.cons.inj isKinds).1 notEof
  | cons first front =>
    exact ⟨front, (List.cons.inj isKinds).2, fun member => only (List.mem_cons_of_mem _ member)⟩

theorem EndsInEof.eq_nil {rest : List TokenKind} (ends : EndsInEof (.eof :: rest)) : rest = [] := by
  obtain ⟨front, isKinds, only⟩ := ends
  cases front with
  | nil => exact (List.cons.inj isKinds).2
  | cons first front =>
    exact absurd (List.mem_cons.mpr (.inl (List.cons.inj isKinds).1)) only

/-- A parser at a depth, before the end of the input. -/
structure Steady (depth : Nat) (parser : Parser) : Prop where
  depth : parser.depth = depth
  ends : EndsInEof parser.kinds

/-- A parser at a depth that has so many tokens before it at most. -/
structure Ready (depth size : Nat) (parser : Parser) : Prop extends Steady depth parser where
  length : parser.kinds.length ≤ size

/-- How a stopping run ends where the run ends with an error: with the error, unless that is one
of the depth. -/
def Halts {α : Type} (error : ParseError) (after : Parser)
    (stopped : EStateM.Result (Stop ParseError) Parser α) : Prop :=
  if DepthText error.message then ∃ last, stopped = .error .panic last
  else stopped = .error (.fail error) after

/-- What ends as a stopping run does, with a state that is told by its state. -/
theorem Halts.of {α β : Type} {error : ParseError} {after : Parser}
    {stopped : EStateM.Result (Stop ParseError) Parser α}
    {stopped' : EStateM.Result (Stop ParseError) Parser β} (update : Parser → Parser)
    (follows : ∀ stop last, stopped = .error stop last → stopped' = .error stop (update last))
    (halts : Halts error after stopped) : Halts error (update after) stopped' := by
  unfold Halts at *
  split_ifs at halts ⊢
  · obtain ⟨last, panics⟩ := halts
    exact ⟨update last, follows _ last panics⟩
  · exact follows _ after halts

/-- From a ready parser a computation comes to an end as its watched run does, with a good
value or an error; and so does its stopping run, unless the error is one of the depth. -/
def Tracks {α : Type} (starts : List TokenKind → Prop) (depth size left : Nat) (good : α → Prop)
    (computation : Descent → ParserM α) : Prop :=
  ∀ before, starts before.kinds → Ready depth size before →
    computation watchedDepth before = computation plainDepth before ∧
      match computation plainDepth before with
      | .ok value after => Ready depth left after ∧ good value ∧
        computation stoppingDepth before = .ok value after
      | .error stop after => Steady depth after ∧ ∃ error, stop = .fail error ∧
        Halts error after (computation stoppingDepth before)

/-- Nothing is asked of a value. -/
def AnyValue {α : Type} (_ : α) : Prop := True

section Rules

variable {α β : Type} {starts : List TokenKind → Prop} {depth size mid left : Nat}
  {good : α → Prop} {good' : β → Prop}

theorem Ready.mono {parser : Parser} (ready : Ready depth size parser) (fits : size ≤ left) :
    Ready depth left parser := { ready with length := ready.length.trans fits }

theorem Ready.cons {parser : Parser} (ready : Ready depth size parser) :
    ∃ tok rest, parser.tokens = tok :: rest :=
  List.exists_cons_of_ne_nil fun empty => ready.ends.ne_nil (by rw [kinds, empty]; rfl)

/-- An error that is reported by a ready parser is one of its next token. -/
theorem Ready.error {parser : Parser} (ready : Ready depth size parser) (message : String) :
    ∃ error, error.message = message ∧ parser.error message = .fail error := by
  obtain ⟨tok, rest, isTokens⟩ := ready.cons
  refine ⟨⟨message, tok.line, tok.col, tok.offset⟩, rfl, ?_⟩
  rw [Parser.error, isTokens]

/-- No parser is ready with no tokens. -/
theorem tracks_zero {computation : Descent → ParserM α} :
    Tracks starts depth 0 left good computation :=
  fun _ _ ready => absurd (List.eq_nil_of_length_eq_zero (Nat.le_zero.mp ready.length))
    ready.ends.ne_nil

theorem Tracks.pure {value : α} (isGood : good value) (fits : size ≤ left) :
    Tracks starts depth size left good fun _ => Pure.pure value :=
  fun _ _ ready => ⟨rfl, ready.mono fits, isGood, rfl⟩

/-- At the end of the input one token is left. -/
theorem Tracks.done {value : α} (isGood : good value) :
    Tracks (Next .eof) depth size 1 good fun _ => Pure.pure value := by
  rintro before ⟨rest, isKinds⟩ ready
  obtain rfl : rest = [] := EndsInEof.eq_nil (isKinds ▸ ready.ends)
  exact ⟨rfl, { ready with length := by rw [isKinds]; exact le_rfl }, isGood, rfl⟩

theorem tracks_failWith {message : String} (isOther : ¬ DepthText message) :
    Tracks starts depth size left good fun _ => failWith message := by
  intro before _ ready
  obtain ⟨error, rfl, isError⟩ := ready.error message
  refine ⟨rfl, ready.toSteady, error, isError, ?_⟩
  rw [Halts, if_neg isOther, ← isError]
  rfl

theorem Tracks.weaken {computation : Descent → ParserM α} (fits : mid ≤ left)
    (tracks : Tracks starts depth size mid good computation) :
    Tracks starts depth size left good computation := by
  intro before sees ready
  obtain ⟨same, outcome⟩ := tracks before sees ready
  refine ⟨same, ?_⟩
  cases ran : computation plainDepth before with
  | ok value after =>
    rw [ran] at outcome
    exact ⟨outcome.1.mono fits, outcome.2⟩
  | error stop after =>
    rw [ran] at outcome
    exact outcome

theorem Tracks.narrow {computation : Descent → ParserM α} (fewer : mid ≤ size)
    (tracks : Tracks starts depth size left good computation) :
    Tracks starts depth mid left good computation :=
  fun before sees ready => tracks before sees (ready.mono fewer)

/-- A first step that succeeds from every ready parser. -/
theorem Tracks.step {first : ParserM β} {next : β → Descent → ParserM α}
    (steps : ∀ before, starts before.kinds → Ready depth size before →
      ∃ value after, first before = .ok value after ∧ ∃ starts' less,
        starts' after.kinds ∧ Ready depth less after ∧
        Tracks starts' depth less left good (next value)) :
    Tracks starts depth size left good
      fun descend => first >>= fun value => next value descend := by
  intro before sees ready
  obtain ⟨value, after, ran, starts', less, sees', ready', tracks⟩ := steps before sees ready
  obtain ⟨same, outcome⟩ := tracks after sees' ready'
  simp only [bind_ok ran]
  exact ⟨same, outcome⟩

theorem Tracks.bind {first : Descent → ParserM β} {next : β → Descent → ParserM α}
    (here : Tracks starts depth size mid good' first)
    (rest : ∀ value, good' value → Tracks Whatever depth mid left good (next value)) :
    Tracks starts depth size left good
      fun descend => first descend >>= fun value => next value descend := by
  intro before sees ready
  obtain ⟨same, outcome⟩ := here before sees ready
  cases ran : first plainDepth before with
  | ok value between =>
    rw [ran] at same outcome
    obtain ⟨ready', isGood, stopped⟩ := outcome
    obtain ⟨same', outcome'⟩ := rest value isGood between trivial ready'
    simp only [bind_ok ran, bind_ok same, bind_ok stopped]
    exact ⟨same', outcome'⟩
  | error stop between =>
    rw [ran] at same outcome
    obtain ⟨steady, error, isFail, halts⟩ := outcome
    simp only [bind_error ran, bind_error same]
    exact ⟨trivial, steady, error, isFail, halts.of id fun _ _ => bind_error⟩

theorem Tracks.ite {condition : Prop} [Decidable condition] {yes no : Descent → ParserM α}
    (ifYes : Tracks starts depth size left good yes)
    (ifNo : Tracks starts depth size left good no) :
    Tracks starts depth size left good
      fun descend => if condition then yes descend else no descend := by
  split
  · exact ifYes
  · exact ifNo

theorem tracks_orError_bind {read : Except String β} {next : β → Descent → ParserM α}
    (isOther : ∀ message, read = .error message → ¬ DepthText message)
    (rest : ∀ value, Tracks starts depth size left good (next value)) :
    Tracks starts depth size left good
      fun descend => orError read >>= fun value => next value descend := by
  cases read with
  | ok value => exact rest value
  | error message => exact tracks_failWith (isOther message rfl)

/-! ### Reading tokens -/

theorem tracks_peek_bind {next : TokenKind → Descent → ParserM α}
    (rest : ∀ kind, Tracks (Next kind) depth size left good (next kind)) :
    Tracks starts depth size left good
      fun descend => peekKind >>= fun kind => next kind descend := by
  refine Tracks.step fun before _ ready => ?_
  obtain ⟨tok, others, isTokens⟩ := ready.cons
  refine ⟨tok.kind, before, ?_, Next tok.kind, size, ⟨others.map (·.kind), ?_⟩, ready,
    rest tok.kind⟩
  · rw [peekKind, isTokens]
  · rw [kinds, isTokens, List.map_cons]

theorem tracks_isAtEnd_bind {next : Bool → Descent → ParserM α}
    (rest : ∀ kind, Tracks (Next kind) depth size left good (next (kind == .eof))) :
    Tracks starts depth size left good
      fun descend => isAtEnd >>= fun atEnd => next atEnd descend := by
  simp only [isAtEnd, bind_assoc, pure_bind]
  exact tracks_peek_bind rest

/-- A token is read, unless the input ends. -/
theorem tracks_advance_bind {next : TokenKind → Descent → ParserM α}
    (atEnd : Tracks Whatever depth (size + 1) left good (next .eof))
    (onward : ∀ kind, kind ≠ .eof → Tracks Whatever depth size left good (next kind)) :
    Tracks starts depth (size + 1) left good
      fun descend => advance >>= fun kind => next kind descend := by
  refine Tracks.step fun before _ ready => ?_
  obtain ⟨tok, others, isTokens⟩ := ready.cons
  by_cases isEof : tok.kind = .eof
  · refine ⟨tok.kind, before, ?_, Whatever, size + 1, trivial, ready, ?_⟩
    · rw [advance, isTokens]
      exact if_pos isEof
    · rw [isEof]
      exact atEnd
  · have isKinds : before.kinds = tok.kind :: others.map (·.kind) := by
      rw [kinds, isTokens, List.map_cons]
    refine ⟨tok.kind, { before with tokens := others }, ?_, Whatever, size, trivial,
      ⟨⟨ready.depth, ?_⟩, ?_⟩, onward tok.kind isEof⟩
    · rw [advance, isTokens]
      exact if_neg isEof
    · exact EndsInEof.tail isEof (isKinds ▸ ready.ends)
    · have length := ready.length
      rw [isKinds] at length
      exact Nat.le_of_succ_le_succ length

/-- A token is read, whatever it is. -/
theorem tracks_advance {next : TokenKind → Descent → ParserM α}
    (rest : ∀ kind, Tracks Whatever depth size left good (next kind)) :
    Tracks starts depth size left good
      fun descend => advance >>= fun kind => next kind descend := by
  cases size with
  | zero => exact tracks_zero
  | succ size =>
    exact tracks_advance_bind (rest _) fun kind _ => (rest kind).narrow (Nat.le_succ size)

theorem Tracks.discard_bind {first : Descent → ParserM β} {next : Descent → ParserM α}
    (tracks : Tracks starts depth size left good
      fun descend => first descend >>= fun _ => next descend) :
    Tracks starts depth size left good fun descend =>
      discard (first descend) >>= fun _ => next descend := by
  simpa only [Stateful.discard_bind] using tracks

theorem Tracks.discard {computation : Descent → ParserM α}
    (tracks : Tracks starts depth size left good computation) :
    Tracks starts depth size left AnyValue fun descend => discard (computation descend) := by
  intro before sees ready
  obtain ⟨same, outcome⟩ := tracks before sees ready
  cases ran : computation plainDepth before with
  | ok value after =>
    rw [ran] at same outcome
    simp only [discard_ok ran, discard_ok same]
    exact ⟨trivial, outcome.1, trivial, discard_ok outcome.2.2⟩
  | error stop after =>
    rw [ran] at same outcome
    obtain ⟨steady, error, isFail, halts⟩ := outcome
    simp only [discard_error ran, discard_error same]
    exact ⟨trivial, steady, error, isFail, halts.of id fun _ _ => discard_error⟩

/-- The token that is next is read. -/
theorem tracks_next_bind {kind : TokenKind} (notEof : kind ≠ .eof)
    {next : TokenKind → Descent → ParserM α}
    (rest : Tracks Whatever depth size left good (next kind)) :
    Tracks (Next kind) depth (size + 1) left good
      fun descend => advance >>= fun kind => next kind descend := by
  refine Tracks.step fun before isNext ready => ?_
  obtain ⟨others, isKinds⟩ := isNext
  obtain ⟨tok, tokens, isTokens⟩ := ready.cons
  rw [kinds, isTokens, List.map_cons] at isKinds
  obtain ⟨rfl, rfl⟩ := List.cons.inj isKinds
  have areKinds : before.kinds = tok.kind :: tokens.map (·.kind) := by
    rw [kinds, isTokens, List.map_cons]
  refine ⟨tok.kind, { before with tokens := tokens }, ?_, Whatever, size, trivial,
    ⟨⟨ready.depth, ?_⟩, ?_⟩, rest⟩
  · rw [advance, isTokens]
    exact if_neg notEof
  · exact EndsInEof.tail notEof (areKinds ▸ ready.ends)
  · have length := ready.length
    rw [areKinds] at length
    exact Nat.le_of_succ_le_succ length

theorem tracks_discard_advance {kind : TokenKind} (notEof : kind ≠ .eof)
    {next : Descent → ParserM α} (rest : Tracks Whatever depth size left good next) :
    Tracks (Next kind) depth (size + 1) left good
      fun descend => discard advance >>= fun _ => next descend :=
  Tracks.discard_bind (tracks_next_bind notEof rest)

/-- What comes next is told by the number of tokens that are left. -/
theorem tracks_get_bind {next : Parser → Descent → ParserM α}
    (rest : ∀ parser, parser.tokens.length ≤ size →
      Tracks starts depth parser.tokens.length left good (next parser)) :
    Tracks starts depth size left good
      fun descend => get >>= fun parser => next parser descend := by
  refine Tracks.step fun before sees ready => ?_
  have isLength : before.kinds.length = before.tokens.length := List.length_map _
  have fits : before.tokens.length ≤ size := isLength ▸ ready.length
  exact ⟨before, before, rfl, starts, before.tokens.length, sees,
    { ready with length := isLength.le }, rest before fits⟩

/-! ### Going a level down -/

theorem withDepth_congr {computation computation' : ParserM α} {before : Parser}
    (same : computation { before with depth := before.depth + 1 } =
      computation' { before with depth := before.depth + 1 }) :
    withDepth computation before = withDepth computation' before := by
  rw [withDepth, withDepth, same]

theorem withDepth_error {computation : ParserM α} {before inner : Parser} {stop : Stop ParseError}
    (below : before.depth < maxParseDepth)
    (ran : computation { before with depth := before.depth + 1 } = .error stop inner) :
    withDepth computation before = .error stop { inner with depth := inner.depth - 1 } := by
  rw [withDepth, if_neg (Nat.not_le.mpr below), ran]

/-- A watched descent is a plain one that puts the counter back. -/
theorem watchedDepth_run {computation computation' : ParserM α} {before : Parser}
    (same : withDepth (belowLimit computation) before = withDepth computation' before)
    (putBack : (final (withDepth computation') before).depth = before.depth) :
    watchedDepth α computation before = withDepth computation' before := by
  rw [watchedDepth, final, same, ← final, if_pos putBack]

theorem Tracks.descend {computation : Descent → ParserM α}
    (tracks : depth < maxParseDepth → Tracks starts (depth + 1) size left good computation) :
    Tracks starts depth size left good fun descend => descend α (computation descend) := by
  intro before sees ready
  have isDepth := ready.depth
  by_cases tooDeep : maxParseDepth ≤ before.depth
  · obtain ⟨message, isText, fails⟩ : ∃ message, DepthText message ∧
        ∀ computation : ParserM α, withDepth computation before =
          .error (before.error message) before :=
      ⟨_, .append (.append (by decide) _) _, fun _ => if_pos tooDeep⟩
    obtain ⟨error, rfl, isError⟩ := ready.error message
    refine ⟨watchedDepth_run ((fails _).trans (fails _).symm) ?_, ?_⟩
    · rw [final_error (fails _)]
    · show match withDepth (computation plainDepth) before with
        | .ok value after => _
        | .error stop after => _
      rw [fails]
      refine ⟨ready.toSteady, error, isError, ?_⟩
      rw [Halts, if_pos isText]
      exact ⟨before, if_pos (Nat.lt_succ_of_le tooDeep)⟩
  · have below := Nat.lt_of_not_le tooDeep
    have notOver : ¬ maxParseDepth < before.depth + 1 := Nat.not_lt.mpr below
    obtain ⟨same, outcome⟩ := tracks (isDepth ▸ below) { before with depth := before.depth + 1 }
      sees ⟨⟨congrArg (· + 1) isDepth, ready.ends⟩, ready.length⟩
    have watched : withDepth (belowLimit (computation watchedDepth)) before =
        withDepth (computation plainDepth) before :=
      withDepth_congr ((if_neg notOver).trans same)
    have stopping : stoppingDepth α (computation stoppingDepth) before =
        withDepth (computation stoppingDepth) before := if_neg notOver
    cases ran : computation plainDepth { before with depth := before.depth + 1 } with
    | ok value inner =>
      rw [ran] at outcome
      obtain ⟨ready', isGood, stopped⟩ := outcome
      have ranOuter := withDepth_run below ran
      have putBack : inner.depth - 1 = depth := by rw [ready'.depth, Nat.add_sub_cancel]
      refine ⟨watchedDepth_run watched ?_, ?_⟩
      · rw [final_ok ranOuter]
        exact putBack.trans isDepth.symm
      · show match withDepth (computation plainDepth) before with
          | .ok value after => _
          | .error stop after => _
        rw [ranOuter]
        exact ⟨⟨⟨putBack, ready'.ends⟩, ready'.length⟩, isGood,
          stopping.trans (withDepth_run below stopped)⟩
    | error stop inner =>
      rw [ran] at outcome
      obtain ⟨steady, error, isFail, halts⟩ := outcome
      have ranOuter := withDepth_error below ran
      have putBack : inner.depth - 1 = depth := by rw [steady.depth, Nat.add_sub_cancel]
      refine ⟨watchedDepth_run watched ?_, ?_⟩
      · rw [final_error ranOuter]
        exact putBack.trans isDepth.symm
      · show match withDepth (computation plainDepth) before with
          | .ok value after => _
          | .error stop after => _
        rw [ranOuter]
        exact ⟨⟨putBack, steady.ends⟩, error, isFail,
          halts.of (fun inner => { inner with depth := inner.depth - 1 })
            fun _ _ stopped => stopping.trans (withDepth_error below stopped)⟩

/-- The next token is known. -/
theorem tracks_known_bind {kind : TokenKind} {next : TokenKind → Descent → ParserM α}
    (rest : Tracks (Next kind) depth size left good (next kind)) :
    Tracks (Next kind) depth size left good
      fun descend => peekKind >>= fun kind => next kind descend := by
  refine Tracks.step fun before isNext ready => ?_
  obtain ⟨tok, others, isTokens⟩ := ready.cons
  have isKind : tok.kind = kind := by
    obtain ⟨tail, isKinds⟩ := isNext
    rw [kinds, isTokens, List.map_cons] at isKinds
    exact (List.cons.inj isKinds).1
  refine ⟨kind, before, ?_, Next kind, size, isNext, ready, rest⟩
  rw [peekKind, isTokens, ← isKind]

theorem tracks_peekKindAt_bind {offset : Nat} {next : Option TokenKind → Descent → ParserM α}
    (rest : ∀ kind, Tracks starts depth size left good (next kind)) :
    Tracks starts depth size left good
      fun descend => peekKindAt offset >>= fun kind => next kind descend :=
  .step fun before sees ready => ⟨_, before, rfl, starts, size, sees, ready, rest _⟩

theorem tracks_refuse {message : String} (starts' : StartsOtherwise message) :
    Tracks starts depth size left good fun _ => failWith message :=
  tracks_failWith starts'.not_depthText

theorem tracks_token : Tracks starts depth size size AnyValue fun _ => advance := by
  have tracks : Tracks starts depth size size AnyValue
      fun _ => advance >>= fun kind => Pure.pure kind :=
    tracks_advance fun _ => .pure trivial le_rfl
  simpa only [bind_pure] using tracks

theorem tracks_token_next {kind : TokenKind} (notEof : kind ≠ .eof) :
    Tracks (Next kind) depth (size + 1) size AnyValue fun _ => advance := by
  have tracks : Tracks (Next kind) depth (size + 1) size AnyValue
      fun _ => advance >>= fun kind => Pure.pure kind :=
    tracks_next_bind notEof (.pure trivial le_rfl)
  simpa only [bind_pure] using tracks

end Rules

/-! ### Tokens with a meaning -/

section Methods

variable {F : Type} {host : Host F} {starts : List TokenKind → Prop} {depth size left : Nat}

theorem tracks_expect (kind : TokenKind) :
    Tracks starts depth size size AnyValue fun _ => expect host kind :=
  tracks_peek_bind fun _ => .ite tracks_token (.ite (tracks_refuse (by decide))
    (tracks_refuse (.append (.append (.append (by decide) _) _) _)))

theorem tracks_expect_next {kind : TokenKind} (notEof : kind ≠ .eof) :
    Tracks (Next kind) depth (size + 1) size AnyValue fun _ => expect host kind := by
  refine tracks_known_bind ?_
  simp only [if_true]
  exact tracks_token_next notEof

theorem tracks_expect_bind {α : Type} {good : α → Prop} {kind : TokenKind}
    {next : Descent → ParserM α} (rest : Tracks Whatever depth size left good next) :
    Tracks starts depth size left good
      fun descend => discard (expect host kind) >>= fun _ => next descend :=
  .discard_bind ((tracks_expect kind).bind fun _ _ => rest)

theorem tracks_expectSymbol (expected : String) :
    Tracks starts depth size size AnyValue fun _ => expectSymbol expected :=
  tracks_peek_bind fun _ => .ite (.discard tracks_token)
    (tracks_refuse (.append (.append (by decide) _) _))

/-- The skipper reads a token in each round. -/
theorem tracks_skipSexpLoop (close : TokenKind) : ∀ (fuel open_ size : Nat), size ≤ fuel →
    ∀ {starts : List TokenKind → Prop},
      Tracks starts depth size size AnyValue fun _ => skipSexpLoop close fuel open_
  | 0, _, _, fits, _ => by
    obtain rfl := Nat.le_zero.mp fits
    exact tracks_zero
  | fuel + 1, open_, 0, _, _ => tracks_zero
  | fuel + 1, open_, size + 1, fits, starts => by
    have fits := Nat.le_of_succ_le_succ fits
    have again : ∀ open_, Tracks Whatever depth size (size + 1) AnyValue
        fun _ => skipSexpLoop close fuel open_ := fun open_ =>
      (tracks_skipSexpLoop close fuel open_ size fits).weaken (Nat.le_succ size)
    refine tracks_isAtEnd_bind fun kind => ?_
    by_cases stops : open_ = 0 ∨ (kind == .eof) = true
    · simp only [if_pos stops]
      exact .pure trivial le_rfl
    · simp only [if_neg stops]
      have notEof : kind ≠ .eof := fun isEof => stops (.inr (beq_iff_eq.mpr isEof))
      refine tracks_known_bind (tracks_discard_advance notEof ?_)
      cases kind <;> exact again _

theorem tracks_skipSexp : Tracks (Next .lParen) depth (size + 1) size AnyValue fun _ => skipSexp :=
by
  refine tracks_known_bind ?_
  dsimp only
  refine tracks_discard_advance (by decide) ?_
  exact tracks_get_bind fun _ fits => (tracks_skipSexpLoop _ _ _ _ (Nat.le_succ _)).weaken fits

theorem tracks_orError {α : Type} {read : Except String α}
    (isOther : ∀ message, read = .error message → ¬ DepthText message) :
    Tracks starts depth size size AnyValue fun _ => orError read := by
  cases read with
  | ok value => exact .pure trivial le_rfl
  | error message => exact tracks_failWith (isOther message rfl)

theorem tracks_parseText {message : String} (otherwise : StartsOtherwise message) :
    Tracks starts depth size size AnyValue fun _ => parseText message := by
  refine tracks_advance fun kind => ?_
  cases kind with
  | symbol text => exact .pure trivial le_rfl
  | str text => exact .pure trivial le_rfl
  | _ => exact tracks_refuse otherwise

theorem startsOtherwise_parseDigits {bound : Nat} {message : String} : ∀ {text : List Char}
    {result : Nat}, parseDigits bound text result = .error message → StartsOtherwise message
  | [], _, fails => by cases fails
  | c :: rest, result, fails => by
    rw [parseDigits] at fails
    split_ifs at fails
    · cases fails
      decide
    · cases fails
      decide
    · exact startsOtherwise_parseDigits fails

theorem startsOtherwise_parseUnsigned {bound : Nat} {message : String} {text : List Char}
    (fails : parseUnsigned bound text = .error message) : StartsOtherwise message := by
  unfold parseUnsigned at fails
  split at fails
  · cases fails
    decide
  · cases fails
    decide
  · exact startsOtherwise_parseDigits fails
  · exact startsOtherwise_parseDigits fails

theorem startsOtherwise_parseDuration {message text : String}
    (fails : parseDuration text = .error message) : StartsOtherwise message := by
  rw [parseDuration_eq] at fails
  split_ifs at fails with isEmpty
  · cases fails
    decide
  cases suffixed : stripSuffix "ns".toList (trim text.toList) with
  | some rest =>
    rw [suffixed] at fails
    dsimp only at fails
    cases read : parseUnsigned (2 ^ 64) rest with
    | ok nanos =>
      rw [read] at fails
      cases fails
    | error other =>
      rw [read] at fails
      cases fails
      exact startsOtherwise_parseUnsigned read
  | none =>
    rw [suffixed] at fails
    dsimp only at fails
    cases read : parseUnsigned (2 ^ 64) ((trim text.toList).takeWhile Char.isDigit) with
    | error other =>
      rw [read] at fails
      cases fails
      exact startsOtherwise_parseUnsigned read
    | ok number =>
      rw [read] at fails
      dsimp only [Except.bind] at fails
      cases isUnit : unitSecs ((trim text.toList).dropWhile Char.isDigit) with
      | some secs =>
        rw [isUnit] at fails
        cases fails
      | none =>
        rw [isUnit] at fails
        cases fails
        exact .append (by decide) _

theorem startsOtherwise_display (error : CoreError F) :
    StartsOtherwise (CoreError.display host error) := by
  cases error with
  | confidenceOutOfRange v => exact .append (by decide) _
  | authorityOutOfRange v => exact .append (by decide) _
  | invalidDecimal text => exact .append (by decide) _
  | decimalOverflow =>
    show StartsOtherwise "decimal overflow: value exceeds i128 range"
    decide

theorem not_depthText_mapError {α : Type} {read : Except (CoreError F) α} {message : String}
    (fails : read.mapError (CoreError.display host) = .error message) : ¬ DepthText message := by
  cases read with
  | ok value => cases fails
  | error error =>
    cases fails
    exact (startsOtherwise_display error).not_depthText

theorem tracks_parsePermissionTag :
    Tracks starts depth size size AnyValue fun _ => parsePermissionTag := by
  refine tracks_advance fun kind => ?_
  cases kind with
  | symbol text =>
    dsimp only
    cases namedPermission text with
    | some tag => exact .pure trivial le_rfl
    | none => exact tracks_refuse (.append (by decide) _)
  | _ => exact tracks_refuse (by decide)

theorem tracks_parseIdListLoop : ∀ (fuel size : Nat) (ids : List NodeId), size ≤ fuel →
    ∀ {starts : List TokenKind → Prop},
      Tracks starts depth size size AnyValue fun _ => parseIdListLoop fuel ids
  | 0, _, _, fits, _ => by
    obtain rfl := Nat.le_zero.mp fits
    exact tracks_zero
  | fuel + 1, 0, _, _, _ => tracks_zero
  | fuel + 1, size + 1, ids, fits, starts => by
    have fits := Nat.le_of_succ_le_succ fits
    refine tracks_peek_bind fun kind => ?_
    have more : kind ≠ .eof → Tracks (Next kind) depth (size + 1) (size + 1) AnyValue fun _ =>
        advance >>= parseIdListNext fuel ids := by
      intro notEof
      refine tracks_next_bind notEof ?_
      cases kind with
      | symbol text =>
        exact (tracks_parseIdListLoop fuel size _ fits).weaken (Nat.le_succ size)
      | _ => exact tracks_refuse (by decide)
    cases kind with
    | rBracket => exact .pure trivial le_rfl
    | eof => exact .pure trivial le_rfl
    | _ => exact more (by simp)

theorem tracks_parseIdList : Tracks starts depth size size AnyValue fun _ => parseIdList host := by
  refine tracks_peek_bind fun kind => .ite ?_ ?_
  · refine .discard_bind (tracks_advance fun _ => tracks_get_bind fun _ fits => ?_)
    exact (tracks_parseIdListLoop _ _ _ (Nat.le_succ _)).bind fun _ _ =>
      tracks_expect_bind (.pure trivial fits)
  · refine tracks_advance fun kind => ?_
    cases kind with
    | symbol text => exact .pure trivial le_rfl
    | _ => exact tracks_refuse (by decide)

theorem tracks_parseU32 : Tracks starts depth size size AnyValue fun _ => parseU32 := by
  refine tracks_advance fun kind => ?_
  cases kind with
  | number text =>
    exact tracks_orError_bind
      (fun _ fails => (startsOtherwise_parseUnsigned fails).not_depthText)
      fun _ => .pure trivial le_rfl
  | _ => exact tracks_refuse (by decide)

theorem tracks_parseSpan : Tracks starts depth size size AnyValue fun _ => parseSpan host := by
  refine tracks_peek_bind fun kind => .ite ?_ ?_
  · refine .discard_bind (tracks_advance fun _ => ?_)
    exact tracks_parseU32.bind fun _ _ => tracks_parseU32.bind fun _ _ =>
      tracks_expect_bind (.pure trivial le_rfl)
  · exact tracks_parseU32.bind fun _ _ => tracks_parseU32.bind fun _ _ => .pure trivial le_rfl

theorem tracks_parseSmolStr : Tracks starts depth size size AnyValue fun _ => parseSmolStr :=
  tracks_parseText (by decide)

theorem tracks_parseModelRef :
    Tracks starts depth size size AnyValue fun _ => parseModelRef host := by
  refine tracks_peek_bind fun kind => ?_
  cases kind with
  | lParen =>
    refine .discard_bind (tracks_advance fun _ => (tracks_expectSymbol _).bind fun _ _ => ?_)
    exact tracks_parseSmolStr.bind fun _ _ => tracks_parseSmolStr.bind fun _ _ =>
      tracks_expect_bind (.pure trivial le_rfl)
  | symbol text =>
    exact tracks_parseSmolStr.bind fun _ _ => tracks_parseSmolStr.bind fun _ _ =>
      .pure trivial le_rfl
  | str text =>
    exact tracks_parseSmolStr.bind fun _ _ => tracks_parseSmolStr.bind fun _ _ =>
      .pure trivial le_rfl
  | _ => exact tracks_refuse (.append (by decide) _)

/-- A document and a span in it. -/
theorem tracks_document {next : DocId → Span → ParserM Provenance}
    (rest : ∀ doc span, Tracks Whatever depth size size AnyValue fun _ => next doc span) :
    Tracks starts depth size size AnyValue
      fun _ => parseDocId >>= fun doc => parseSpan host >>= next doc := by
  have doc : ∀ {starts}, Tracks starts depth size size AnyValue fun _ => parseDocId := fun {_} =>
    (tracks_parseText (by decide)).bind fun _ _ => .pure trivial le_rfl
  exact doc.bind fun doc _ => tracks_parseSpan.bind fun span _ => rest doc span

theorem tracks_parseProvenanceOf (kind : String) :
    Tracks starts depth size size AnyValue fun _ => parseProvenanceOf host kind := by
  refine .ite (tracks_document fun _ _ => .pure trivial le_rfl) ?_
  refine .ite (tracks_document fun _ _ => .pure trivial le_rfl) ?_
  refine .ite (tracks_document fun _ _ => ?_) ?_
  · exact tracks_parseModelRef.bind fun _ _ => .pure trivial le_rfl
  refine .ite (tracks_advance fun kind => ?_) ?_
  · cases kind with
    | symbol text =>
      have rule : Tracks Whatever depth size size AnyValue fun _ => parseRuleId :=
        tracks_parseSmolStr.bind fun _ _ => .pure trivial le_rfl
      exact rule.bind fun _ _ => .pure trivial le_rfl
    | _ => exact tracks_refuse (by decide)
  refine .ite ?_ (tracks_refuse (.append (by decide) _))
  have principal : Tracks starts depth size size AnyValue fun _ => parsePrincipal :=
    tracks_parseSmolStr.bind fun _ _ => .pure trivial le_rfl
  exact principal.bind fun _ _ => .pure trivial le_rfl

theorem tracks_parseProvenance :
    Tracks starts depth size size AnyValue fun _ => parseProvenance host := by
  refine tracks_expect_bind (tracks_advance fun kind => ?_)
  cases kind with
  | symbol kind =>
    exact (tracks_parseProvenanceOf kind).bind fun _ _ =>
      tracks_expect_bind (.pure trivial le_rfl)
  | _ => exact tracks_refuse (by decide)

theorem tracks_parseF32 (tells : host.TellsDepth) :
    Tracks starts depth size size AnyValue fun _ => parseF32 host := by
  refine tracks_advance fun kind => ?_
  cases kind with
  | number text => exact tracks_orError (tells.f32_text text)
  | _ => exact tracks_refuse (by decide)

theorem tracks_parseDatetime (tells : host.TellsDepth) :
    Tracks starts depth size size AnyValue fun _ => parseDatetime host := by
  refine tracks_advance fun kind => ?_
  cases kind with
  | date text =>
    exact tracks_orError_bind (tells.date_text text) fun _ => .pure trivial le_rfl
  | str text => exact tracks_orError (tells.datetime_text text)
  | _ => exact tracks_refuse (by decide)

theorem tracks_parseValidity (tells : host.TellsDepth) :
    Tracks starts depth size size AnyValue fun _ => parseValidity host := by
  refine tracks_peek_bind fun kind => ?_
  have until_ : Tracks Whatever depth size size AnyValue fun _ => parseUntil host :=
    tracks_peek_bind fun _ => .ite (.pure trivial le_rfl)
      ((tracks_parseDatetime tells).bind fun _ _ => .pure trivial le_rfl)
  have window : Tracks (Next kind) depth size size AnyValue fun _ => discard advance >>= fun _ =>
      expectSymbol "window" >>= fun _ => parseDatetime host >>= fun from_ => parseUntil host >>=
        fun until_ => discard (expect host .rParen) >>= fun _ =>
          pure (Validity.window from_ until_) := by
    refine .discard_bind (tracks_advance fun _ => (tracks_expectSymbol _).bind fun _ _ => ?_)
    exact (tracks_parseDatetime tells).bind fun _ _ => until_.bind fun _ _ =>
      tracks_expect_bind (.pure trivial le_rfl)
  split
  · exact .discard_bind (tracks_advance fun _ => .pure trivial le_rfl)
  · exact window
  · exact tracks_refuse (by decide)

/-! ### Terms and predicates -/

/-- A term that is read at a depth is nested so far below it at most. -/
def TermBelow (depth : Nat) (term : Term) : Prop := term.nesting ≤ maxParseDepth - depth

/-- Terms that are read at a depth. -/
def TermsBelow (depth : Nat) (items : List Term) : Prop :=
  Term.nestingAll items ≤ maxParseDepth - depth

/-- A predicate whose arguments are read at a depth. -/
def PredicateBelow (depth : Nat) (pred : Predicate) : Prop := pred.nesting ≤ maxParseDepth - depth

theorem TermsBelow.concat {items : List Term} {term : Term} (before : TermsBelow depth items)
    (last : TermBelow depth term) : TermsBelow depth (items ++ [term]) := by
  rw [TermsBelow, nestingAll_concat]
  exact Nat.max_le.mpr ⟨before, last⟩

theorem PredicateBelow.positional {pred : Predicate} {term : Term}
    (before : PredicateBelow depth pred) (last : TermBelow depth term) :
    PredicateBelow depth { pred with args := pred.args ++ [term] } := by
  obtain ⟨head, args, named⟩ := pred
  rw [PredicateBelow, Predicate.nesting, Nat.max_le] at before
  exact Nat.max_le.mpr ⟨TermsBelow.concat before.1 last, before.2⟩

theorem PredicateBelow.keyed {pred : Predicate} {term : Term}
    (before : PredicateBelow depth pred) (key : String) (last : TermBelow depth term) :
    PredicateBelow depth { pred with named := pred.named ++ [(key, term)] } := by
  obtain ⟨head, args, named⟩ := pred
  rw [PredicateBelow, Predicate.nesting, Nat.max_le] at before
  refine Nat.max_le.mpr ⟨before.1, ?_⟩
  rw [nestingNamed_concat]
  exact Nat.max_le.mpr ⟨before.2, last⟩

/-- One level more is nested one level below. -/
theorem succ_le_below {nesting : Nat} (below : depth < maxParseDepth)
    (inside : nesting ≤ maxParseDepth - (depth + 1)) : nesting + 1 ≤ maxParseDepth - depth := by
  omega

/-- A token that is a term. -/
theorem tracks_leaf {kind : TokenKind} (notEof : kind ≠ .eof) {term : Term}
    (flat : term.nesting = 0) :
    Tracks (Next kind) depth (size + 1) size (TermBelow depth)
      fun _ => discard advance >>= fun _ => pure term :=
  tracks_discard_advance notEof (.pure (flat.trans_le (Nat.zero_le _)) le_rfl)

/-- A token that is a literal, if it is read. -/
theorem tracks_literal {kind : TokenKind} (notEof : kind ≠ .eof) {α : Type}
    {read : Except String α} {literal : α → Literal}
    (isOther : ∀ message, read = .error message → ¬ DepthText message) :
    Tracks (Next kind) depth (size + 1) size (TermBelow depth)
      fun _ => discard advance >>= fun _ => orError read >>= fun value =>
        pure (Term.lit (literal value)) :=
  tracks_discard_advance notEof
    (tracks_orError_bind isOther fun _ => .pure (Nat.zero_le _) le_rfl)

mutual

theorem tracks_parseTerm (tells : host.TellsDepth) : ∀ (fuel depth size : Nat),
    2 * size ≤ fuel → ∀ {starts : List TokenKind → Prop},
      Tracks starts depth size (size - 1) (TermBelow depth)
        fun descend => Watched.parseTerm descend host fuel
  | _, _, 0, _, _ => tracks_zero
  | 0, _, size + 1, fits, _ => absurd fits (by omega)
  | fuel + 1, depth, size + 1, fits, starts => by
    simp only [Watched.parseTerm]
    refine tracks_peek_bind fun kind => ?_
    cases kind with
    | var name => exact tracks_leaf (by simp) rfl
    | entity name => exact tracks_leaf (by simp) rfl
    | number text => exact tracks_literal (by simp) fun _ fails => not_depthText_mapError fails
    | str text => exact tracks_leaf (by simp) rfl
    | bool b => exact tracks_leaf (by simp) rfl
    | date text => exact tracks_literal (by simp) (tells.date_text text)
    | duration text =>
      exact tracks_literal (by simp) fun _ fails =>
        (startsOtherwise_parseDuration fails).not_depthText
    | uri text => exact tracks_leaf (by simp) rfl
    | lParen =>
      refine .descend fun below => tracks_discard_advance (by decide) ?_
      exact (tracks_parsePredicateBodyInner tells fuel (depth + 1) size (by omega)).bind
        fun pred inside => tracks_expect_bind (.pure (succ_le_below below inside) le_rfl)
    | lBracket =>
      refine .descend fun below => tracks_discard_advance (by decide) ?_
      exact (tracks_parseItems tells fuel (depth + 1) size [] (Nat.zero_le _) (by omega)).bind
        fun items inside => tracks_expect_bind (.pure (succ_le_below below inside) le_rfl)
    | symbol text => exact tracks_leaf (by simp) rfl
    | _ => exact tracks_refuse (.append (by decide) _)

theorem tracks_parseItems (tells : host.TellsDepth) : ∀ (fuel depth size : Nat)
    (items : List Term), TermsBelow depth items → 2 * size + 1 ≤ fuel →
      ∀ {starts : List TokenKind → Prop}, Tracks starts depth size size (TermsBelow depth)
        fun descend => Watched.parseItems descend host fuel items
  | 0, _, _, _, _, fits, _ => absurd fits (by omega)
  | _ + 1, _, 0, _, _, _, _ => tracks_zero
  | fuel + 1, depth, size + 1, items, before, fits, starts => by
    simp only [Watched.parseItems]
    refine tracks_peek_bind fun kind => ?_
    have more : Tracks (Next kind) depth (size + 1) (size + 1) (TermsBelow depth) fun descend =>
        Watched.parseTerm descend host fuel >>= fun term =>
          Watched.parseItems descend host fuel (items ++ [term]) := by
      refine (tracks_parseTerm tells fuel depth (size + 1) (by omega)).bind fun term last => ?_
      exact (tracks_parseItems tells fuel depth size _ (before.concat last) (by omega)).weaken
        (Nat.le_succ size)
    cases kind with
    | rBracket => exact .pure before le_rfl
    | eof => exact .pure before le_rfl
    | _ => exact more

theorem tracks_parsePredicateBodyInner (tells : host.TellsDepth) : ∀ (fuel depth size : Nat),
    2 * size ≤ fuel → ∀ {starts : List TokenKind → Prop},
      Tracks starts depth size size (PredicateBelow depth)
        fun descend => Watched.parsePredicateBodyInner descend host fuel
  | _, _, 0, _, _ => tracks_zero
  | 0, _, size + 1, fits, _ => absurd fits (by omega)
  | fuel + 1, depth, size + 1, fits, starts => by
    simp only [Watched.parsePredicateBodyInner]
    refine tracks_advance_bind (tracks_refuse (by decide)) fun kind _ => ?_
    cases kind with
    | symbol text =>
      exact (tracks_parseArguments tells fuel depth size ⟨.name text, [], []⟩ false
        (Nat.zero_le _) (by omega)).weaken (Nat.le_succ size)
    | _ => exact tracks_refuse (by decide)

theorem tracks_parseArguments (tells : host.TellsDepth) : ∀ (fuel depth size : Nat)
    (pred : Predicate) (inNamed : Bool), PredicateBelow depth pred → 2 * size + 1 ≤ fuel →
      ∀ {starts : List TokenKind → Prop}, Tracks starts depth size size (PredicateBelow depth)
        fun descend => Watched.parseArguments descend host fuel pred inNamed
  | 0, _, _, _, _, _, fits, _ => absurd fits (by omega)
  | _ + 1, _, 0, _, _, _, _, _ => tracks_zero
  | fuel + 1, depth, size + 1, pred, inNamed, before, fits, starts => by
    simp only [Watched.parseArguments]
    refine tracks_peek_bind fun kind => ?_
    have more : Tracks (Next kind) depth (size + 1) (size + 1) (PredicateBelow depth)
        fun descend => if inNamed = true then
            failWith ("NamedArgBeforePositional: positional argument after named argument — " ++
              "named args must be last")
          else Watched.parseTerm descend host fuel >>= fun term =>
            Watched.parseArguments descend host fuel { pred with args := pred.args ++ [term] }
              inNamed := by
      refine .ite (tracks_refuse (.append (by decide) _)) ?_
      refine (tracks_parseTerm tells fuel depth (size + 1) (by omega)).bind fun term last => ?_
      exact (tracks_parseArguments tells fuel depth size _ inNamed (before.positional last)
        (by omega)).weaken (Nat.le_succ size)
    cases kind with
    | rParen => exact .pure before le_rfl
    | eof => exact .pure before le_rfl
    | keyword key =>
      refine tracks_discard_advance (by simp) ?_
      refine (tracks_parseTerm tells fuel depth size (by omega)).bind fun term last => ?_
      exact (tracks_parseArguments tells fuel depth (size - 1) _ true (before.keyed key last)
        (by omega)).weaken (by omega)
    | _ => exact more

end

theorem tracks_parsePredicateForm (tells : host.TellsDepth) :
    Tracks starts depth size size (PredicateBelow (depth + 1))
      fun descend => Watched.parsePredicateForm descend host := by
  refine .descend fun _ => tracks_expect_bind (tracks_get_bind fun parser fits => ?_)
  refine (tracks_parsePredicateBodyInner tells _ _ _ ?_).bind fun pred inside =>
    tracks_expect_bind (.pure inside fits)
  exact Nat.le_add_right _ _

/-! ### Nodes -/

variable [F32 F]

/-- The predicate of a node that is read at a depth, if there is one, is nested so far. -/
def FieldsBelow (depth : Nat) (fields : NodeFields F) : Prop :=
  ∀ pred ∈ fields.predicate, PredicateBelow (depth + 1) pred

omit [F32 F] in
/-- A number that is read and checked. -/
theorem tracks_score {Score : Type} (tells : host.TellsDepth)
    {check : F → Except (CoreError F) Score}
    {next : Score → ParserM (NodeFields F)} {good : NodeFields F → Prop}
    (rest : ∀ score, Tracks Whatever depth size size good fun _ => next score) :
    Tracks starts depth size size good fun _ => parseF32 host >>= fun v =>
      orError ((check v).mapError (CoreError.display host)) >>= next :=
  (tracks_parseF32 tells).bind fun _ _ =>
    tracks_orError_bind (fun _ fails => not_depthText_mapError fails) rest

theorem tracks_parseField (tells : host.TellsDepth) {fields : NodeFields F} (key : String)
    (before : FieldsBelow depth fields) :
    Tracks starts depth size size (FieldsBelow depth)
      fun descend => Watched.parseField descend host fields key := by
  by_cases isPredicate : key = "pred"
  · simp only [Watched.parseField, if_pos isPredicate]
    refine (tracks_parsePredicateForm tells).bind fun pred inside => .pure ?_ le_rfl
    intro pred' isPred
    cases isPred
    exact inside
  · simp only [Watched.parseField, parseField, if_neg isPredicate]
    refine .ite ?_ (.ite ?_ (.ite ?_ (.ite ?_ (.ite ?_ (.ite ?_ (.ite ?_
      (tracks_refuse (.append (.append (by decide) _) _))))))))
    · exact (tracks_parseValidity tells).bind fun _ _ => .pure before le_rfl
    · exact tracks_parseProvenance.bind fun _ _ => .pure before le_rfl
    · exact tracks_score tells fun _ => .pure before le_rfl
    · exact tracks_score tells fun _ => .pure before le_rfl
    · exact tracks_parsePermissionTag.bind fun _ _ => .pure before le_rfl
    · exact tracks_parseIdList.bind fun _ _ => .pure before le_rfl
    · exact (tracks_parseText (by decide)).bind fun _ _ => .pure before le_rfl

theorem tracks_parseFields (tells : host.TellsDepth) : ∀ (fuel size : Nat) (fields : NodeFields F),
    FieldsBelow depth fields → size ≤ fuel → ∀ {starts : List TokenKind → Prop},
      Tracks starts depth size size (FieldsBelow depth)
        fun descend => Watched.parseFields descend host fuel fields
  | 0, _, _, _, fits, _ => by
    obtain rfl := Nat.le_zero.mp fits
    exact tracks_zero
  | fuel + 1, 0, _, _, _, _ => tracks_zero
  | fuel + 1, size + 1, fields, before, fits, starts => by
    have fits := Nat.le_of_succ_le_succ fits
    refine tracks_peek_bind fun kind => ?_
    cases kind with
    | rParen => exact .pure before le_rfl
    | eof => exact .pure before le_rfl
    | keyword key =>
      refine tracks_discard_advance (by simp) ?_
      refine (tracks_parseField tells key before).bind fun fields inside => ?_
      exact (tracks_parseFields tells fuel size fields inside fits).weaken (Nat.le_succ size)
    | _ => exact tracks_refuse (.append (by decide) _)

/-- A node that is read at a depth. -/
def NodeBelow (depth : Nat) (node : Node F) : Prop := PredicateBelow (depth + 2) node.predicate

theorem tracks_parseNode (tells : host.TellsDepth) :
    Tracks (Next .lParen) depth (size + 1) size (NodeBelow depth)
      fun descend => (Watched.parseNode descend host : ParserM (Node F)) := by
  refine .descend fun _ => .discard_bind ((tracks_expect_next (by decide)).bind fun _ _ => ?_)
  refine (tracks_expectSymbol _).bind fun _ _ => tracks_advance fun kind => ?_
  cases kind with
  | symbol id =>
    refine tracks_get_bind fun parser fits => ?_
    refine (tracks_parseFields tells _ _ .default nofun (Nat.le_succ _)).bind fun fields inside =>
      tracks_expect_bind ?_
    cases isPredicate : fields.predicate with
    | none => exact tracks_refuse (by decide)
    | some predicate => exact .pure (inside predicate isPredicate) fits
  | _ => exact tracks_refuse (by decide)

theorem tracks_parseTop (tells : host.TellsDepth) : ∀ (fuel size : Nat) (nodes : List (Node F)),
    (∀ node ∈ nodes, NodeBelow 0 node) → size ≤ fuel → ∀ {starts : List TokenKind → Prop},
      Tracks starts 0 size 1 (fun nodes => ∀ node ∈ nodes, NodeBelow 0 node)
        fun descend => Watched.parseTop descend host fuel nodes
  | 0, _, _, _, fits, _ => by
    obtain rfl := Nat.le_zero.mp fits
    exact tracks_zero
  | fuel + 1, 0, _, _, _, _ => tracks_zero
  | fuel + 1, size + 1, nodes, before, fits, starts => by
    have fits := Nat.le_of_succ_le_succ fits
    have again : ∀ nodes : List (Node F), (∀ node ∈ nodes, NodeBelow 0 node) →
        Tracks Whatever 0 size 1 (fun nodes => ∀ node ∈ nodes, NodeBelow 0 node)
          fun descend => Watched.parseTop descend host fuel nodes :=
      fun nodes before => tracks_parseTop tells fuel size nodes before fits
    refine tracks_peek_bind fun kind => ?_
    cases kind with
    | eof => exact .done before
    | lParen =>
      refine tracks_peekKindAt_bind fun second => .ite ?_ ?_
      · refine (tracks_parseNode tells).bind fun node inside => again _ fun other member => ?_
        rcases List.mem_append.mp member with inNodes | isLast
        · exact before other inNodes
        · rwa [List.mem_singleton.mp isLast]
      · exact tracks_skipSexp.bind fun _ _ => again nodes before
    | _ => exact tracks_discard_advance (by simp) (again nodes before)

end Methods

/-! ### Runs from a list of tokens -/

section Runs

variable {F : Type} [F32 F]

/-- What is safe in the run of the parser from a list of tokens. -/
structure DepthSafe (host : Host F) (tokens : List Token) : Prop where
  /-- The counter is never beyond the limit, and each descent puts it back. -/
  watched : Watched.parseTop watchedDepth host (tokens.length + 1) [] ⟨tokens, 0⟩ =
    parseTop host (tokens.length + 1) [] ⟨tokens, 0⟩
  /-- A run that succeeds has read up to the end of the input, which is left. -/
  succeeds : ∀ nodes after, parseTop host (tokens.length + 1) [] ⟨tokens, 0⟩ = .ok nodes after →
    after.kinds = [.eof] ∧ after.depth = 0 ∧ ∀ node ∈ nodes, node.predicate.nesting ≤ maxNesting
  /-- A run that does not succeed ends with an error, before the end of the input. -/
  fails : ∀ stop after, parseTop host (tokens.length + 1) [] ⟨tokens, 0⟩ = .error stop after →
    (∃ error, stop = .fail error) ∧ EndsInEof after.kinds ∧ after.depth = 0
  /-- The limit is reported exactly where the counter would get beyond it. -/
  limited : ∀ error after,
    parseTop host (tokens.length + 1) [] ⟨tokens, 0⟩ = .error (.fail error) after →
      (DepthText error.message ↔ ∃ last,
        Watched.parseTop stoppingDepth host (tokens.length + 1) [] ⟨tokens, 0⟩ =
          .error .panic last)

/-- The parser is safe from every list of tokens that ends in its only end of input. -/
theorem depthSafe {host : Host F} (tells : host.TellsDepth) {front : List Token} {last : Token}
    (isEof : last.kind = .eof) (only : ∀ tok ∈ front, tok.kind ≠ .eof) :
    DepthSafe host (front ++ [last]) := by
  have ends : EndsInEof (kinds ⟨front ++ [last], 0⟩) := by
    refine ⟨front.map (·.kind), ?_, fun member => ?_⟩
    · rw [kinds, List.map_append, List.map_singleton, isEof]
    · obtain ⟨tok, inFront, isKind⟩ := List.mem_map.mp member
      exact only tok inFront isKind
  have length : (kinds ⟨front ++ [last], 0⟩).length ≤ (front ++ [last]).length :=
    (List.length_map _).le
  have tracks : Tracks Whatever 0 (front ++ [last]).length 1
      (fun nodes : List (Node F) => ∀ node ∈ nodes, NodeBelow 0 node)
      fun descend => Watched.parseTop descend host ((front ++ [last]).length + 1) [] :=
    tracks_parseTop tells _ _ [] (fun _ member => absurd member List.not_mem_nil) (Nat.le_succ _)
  obtain ⟨same, outcome⟩ := tracks ⟨front ++ [last], 0⟩ trivial ⟨⟨rfl, ends⟩, length⟩
  dsimp only at same outcome
  rw [parseTop_plainDepth] at same outcome
  refine ⟨same, fun nodes after ran => ?_, fun stop after ran => ?_, fun error after ran => ?_⟩
  · rw [ran] at outcome
    obtain ⟨ready, below, -⟩ := outcome
    refine ⟨?_, ready.depth, below⟩
    obtain ⟨more, isKinds, -⟩ := ready.ends
    have short := ready.length
    rw [isKinds, List.length_append, List.length_singleton] at short
    obtain rfl : more = [] := List.eq_nil_of_length_eq_zero (Nat.le_zero.mp
      (Nat.le_of_succ_le_succ short))
    exact isKinds
  · rw [ran] at outcome
    obtain ⟨steady, error, isFail, -⟩ := outcome
    exact ⟨⟨error, isFail⟩, steady.ends, steady.depth⟩
  · rw [ran] at outcome
    obtain ⟨-, error', isFail, stopped⟩ := outcome
    cases isFail
    unfold Halts at stopped
    split at stopped
    · exact iff_of_true ‹_› stopped
    · refine iff_of_false ‹_› ?_
      rintro ⟨last, panics⟩
      rw [stopped] at panics
      cases panics

end Runs

end Parser

namespace Tenths

theorem host_tellsDepth : host.TellsDepth where
  f32_text text message fails := by
    have fails : fromStr text = .error message := fails
    unfold fromStr at fails
    split_ifs at fails
    split at fails
    · cases fails
    · cases fails
      decide
  date_text text message fails := by
    simp only [host] at fails
    split at fails
    · cases fails
    · cases fails
      decide
  datetime_text text message fails := by
    simp only [host] at fails
    split at fails
    · cases fails
    · cases fails
      decide

/-- The kinds of the tokens of a node that goes down too far. -/
def deepKinds : List TokenKind :=
  [.lParen, .symbol "node", .symbol "n", .keyword "pred", .lParen, .symbol "p"] ++
    List.replicate 127 .lBracket

theorem depthSafe_deepKinds :
    Parser.DepthSafe host (deepKinds.map (fun kind => ⟨kind, 0, 0, 0⟩) ++ [⟨.eof, 0, 0, 0⟩]) :=
  Parser.depthSafe host_tellsDepth rfl (by simp [deepKinds])

end Tenths

end Factum
