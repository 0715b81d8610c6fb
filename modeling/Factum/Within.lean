/-
This file says that what the parser reads does not depend on what comes after it.

A computation of the parser that succeeds reads some tokens, and it reads them in the same
way whatever tokens follow, except that it may look at the kind of the next one. How deep
it may be called and how much fuel it takes are told by the tokens it reads. A form, from
an opening parenthesis to the one that closes it, is read without a look at what follows.
-/

import Factum.Spent

namespace Factum

open Stateful Lexer

/-! ### Readings -/

/-- The most brackets that are open while tokens are read, when some are open before. -/
def deepest : Nat → List TokenKind → Nat
  | level, [] => level
  | level, .lParen :: rest => deepest (level + 1) rest
  | level, .lBracket :: rest => deepest (level + 1) rest
  | level, .rParen :: rest => max level (deepest (level - 1) rest)
  | level, .rBracket :: rest => max level (deepest (level - 1) rest)
  | level, _ :: rest => deepest level rest

theorem le_deepest (kinds : List TokenKind) : ∀ level, level ≤ deepest level kinds := by
  induction kinds with
  | nil => exact fun level => le_rfl
  | cons kind rest inductionHypothesis =>
    intro level
    cases kind with
    | lParen => exact (Nat.le_succ level).trans (inductionHypothesis (level + 1))
    | lBracket => exact (Nat.le_succ level).trans (inductionHypothesis (level + 1))
    | rParen => exact le_max_left _ _
    | rBracket => exact le_max_left _ _
    | _ => exact inductionHypothesis level

/-- A token that is no bracket. -/
def TokenKind.IsPlain (kind : TokenKind) : Prop :=
  kind ≠ .lParen ∧ kind ≠ .rParen ∧ kind ≠ .lBracket ∧ kind ≠ .rBracket

theorem TokenKind.IsPlain.isLevel {kind : TokenKind} (isPlain : kind.IsPlain) : kind.IsLevel :=
  ⟨isPlain.1, isPlain.2.1⟩

/-- What a computation reads: the tokens, the levels it goes down below its own, and the fuel
it takes. -/
structure Reading where
  used : List TokenKind
  need : Nat
  fuel : Nat

namespace Reading

/-- The reading of nothing. -/
def nothing : Reading := ⟨[], 0, 0⟩

/-- A token before a reading. -/
def token (kind : TokenKind) (reading : Reading) : Reading :=
  { reading with used := kind :: reading.used }

/-- One reading after another. -/
def append (first second : Reading) : Reading :=
  ⟨first.used ++ second.used, max first.need second.need, max first.fuel second.fuel⟩

/-- A reading one level deeper. -/
def deeper (reading : Reading) : Reading := { reading with need := reading.need + 1 }

/-- A reading in a call that takes a unit of fuel. -/
def call (reading : Reading) : Reading := { reading with fuel := reading.fuel + 1 }

/-- A reading that has its fuel from its own. -/
def fueled (reading : Reading) : Reading := { reading with fuel := 0 }

/-- A reading that leaves the level of parentheses as it was. -/
def Flat (reading : Reading) : Prop :=
  ∀ level rest, afterClosing level (reading.used ++ rest) = afterClosing level rest

/-- A reading whose brackets are open as deep as it is nested. -/
def Nests (reading : Reading) : Prop :=
  ∀ level rest, deepest level (reading.used ++ rest) =
    max (level + reading.need) (deepest level rest)

theorem flat_nothing : nothing.Flat := fun _ _ => rfl

theorem Flat.append {first second : Reading} (flat : first.Flat) (flat' : second.Flat) :
    (first.append second).Flat := by
  intro level rest
  show afterClosing level ((first.used ++ second.used) ++ rest) = _
  rw [List.append_assoc, flat, flat']

theorem Flat.token {kind : TokenKind} {reading : Reading} (isLevel : kind.IsLevel)
    (flat : reading.Flat) : (reading.token kind).Flat := by
  intro level rest
  show afterClosing level (kind :: (reading.used ++ rest)) = _
  rw [afterClosing_of_isLevel isLevel, flat]

/-- A reading in parentheses. -/
theorem Flat.parens {reading : Reading} (flat : reading.Flat) :
    ((reading.append (nothing.token .rParen)).token .lParen).Flat := by
  intro level rest
  show afterClosing level (.lParen :: ((reading.used ++ [.rParen]) ++ rest)) = _
  rw [afterClosing_lParen, List.append_assoc, flat]
  exact afterClosing_rParen level rest

theorem nests_nothing : nothing.Nests :=
  fun level rest => (max_eq_right (le_deepest rest level)).symm

theorem Nests.append {first second : Reading} (nests : first.Nests) (nests' : second.Nests) :
    (first.append second).Nests := by
  intro level rest
  show deepest level ((first.used ++ second.used) ++ rest) = _
  rw [List.append_assoc, nests, nests', ← max_assoc, Nat.add_max_add_left]
  rfl

theorem Nests.token {kind : TokenKind} {reading : Reading} (isPlain : kind.IsPlain)
    (nests : reading.Nests) : (reading.token kind).Nests := by
  intro level rest
  have skips : ∀ level kinds, deepest level (kind :: kinds) = deepest level kinds := by
    obtain ⟨notOpen, notClose, notOpen', notClose'⟩ := isPlain
    intro level kinds
    cases kind <;> first | rfl | contradiction
  show deepest level (kind :: (reading.used ++ rest)) = _
  rw [skips, nests]
  rfl

/-- A reading in brackets is nested one level deeper. -/
theorem Nests.brackets {opening closing : TokenKind} {reading : Reading}
    (isPair : opening = .lParen ∧ closing = .rParen ∨ opening = .lBracket ∧ closing = .rBracket)
    (nests : reading.Nests) :
    ((reading.append (nothing.token closing)).token opening).deeper.Nests := by
  intro level rest
  have opens : ∀ kinds, deepest level (opening :: kinds) = deepest (level + 1) kinds := by
    rcases isPair with ⟨rfl, _⟩ | ⟨rfl, _⟩ <;> exact fun _ => rfl
  have closes : ∀ kinds, deepest (level + 1) (closing :: kinds) =
      max (level + 1) (deepest level kinds) := by
    rcases isPair with ⟨_, rfl⟩ | ⟨_, rfl⟩ <;> exact fun _ => rfl
  have isNeed : ((reading.append (nothing.token closing)).token opening).deeper.need =
      reading.need + 1 := congrArg (· + 1) (max_eq_left (Nat.zero_le _))
  show deepest level (opening :: ((reading.used ++ [closing]) ++ rest)) = _
  rw [opens, List.append_assoc, nests, isNeed]
  show max _ (deepest (level + 1) (closing :: rest)) = _
  rw [closes]
  omega

end Reading

/-! ### Computations in their context -/

namespace Parser

variable {α β : Type}

/-- Before tokens of a kind a computation that succeeds has a reading, and with the fuel that
it takes and the depth that it needs the other computation does the same before any tokens
that follow. If it looks ahead, the next of these must be of the same kind. -/
def Carries (starts : List TokenKind → Prop) (looks : Prop) (computation : ParserM α)
    (computation' : Nat → ParserM α) (post : α → Reading → Prop) : Prop :=
  ∀ before value after, starts before.kinds → computation before = .ok value after →
    ∃ reading : Reading, post value reading ∧ before.kinds = reading.used ++ after.kinds ∧
      after.depth = before.depth ∧ reading.need ≤ maxParseDepth - before.depth ∧
      ∀ fuel other before', reading.fuel ≤ fuel →
        (looks → other.head? = after.kinds.head?) → before'.kinds = reading.used ++ other →
        reading.need ≤ maxParseDepth - before'.depth →
        ∃ after', computation' fuel before' = .ok value after' ∧ after'.kinds = other ∧
          after'.depth = before'.depth

section Rules

variable {starts : List TokenKind → Prop} {looks : Prop} {computation : ParserM α}
  {computation' : Nat → ParserM α} {post post' : α → Reading → Prop}

/-- A computation that does not look ahead may do so, and what holds of its reading may be
weakened. -/
theorem Carries.imp (carries : Carries starts looks computation computation' post)
    {looks' : Prop} (sees : looks → looks')
    (weaker : ∀ value reading, post value reading → post' value reading) :
    Carries starts looks' computation computation' post' := by
  intro before value after isStart succeeds
  obtain ⟨reading, holds, isRead, sameDepth, deep, again⟩ :=
    carries before value after isStart succeeds
  exact ⟨reading, weaker value reading holds, isRead, sameDepth, deep,
    fun fuel other before' enough next => again fuel other before' enough (next ∘ sees)⟩

theorem Carries.any (carries : Carries Whatever looks computation computation' post) :
    Carries starts looks computation computation' post :=
  fun before value after _ => carries before value after trivial

theorem Carries.pure {value : α} (holds : post value .nothing) :
    Carries starts looks (pure value) (fun _ => pure value) post := by
  intro before _ _ _ succeeds
  cases succeeds
  refine ⟨.nothing, holds, rfl, rfl, Nat.zero_le _, fun fuel other before' _ _ isRead _ => ?_⟩
  exact ⟨before', rfl, isRead, rfl⟩

theorem carries_failWith (message : String) :
    Carries starts looks (failWith message) computation' post := by
  intro _ _ _ _ succeeds
  cases succeeds

theorem carries_throw (stop : Stop ParseError) :
    Carries starts looks (throw stop) computation' post := by
  intro _ _ _ _ succeeds
  cases succeeds

theorem Carries.ite {condition : Prop} [Decidable condition] {yes no : ParserM α}
    {yes' no' : Nat → ParserM α}
    (ifYes : condition → Carries starts looks yes yes' post)
    (ifNo : ¬ condition → Carries starts looks no no' post) :
    Carries starts looks (if condition then yes else no)
      (fun fuel => if condition then yes' fuel else no' fuel) post := by
  by_cases holds : condition
  · simp only [if_pos holds]
    exact ifYes holds
  · simp only [if_neg holds]
    exact ifNo holds

theorem carries_orError_bind {read : Except String β} {next : β → ParserM α}
    {next' : β → Nat → ParserM α}
    (rest : ∀ value, read = .ok value → Carries starts looks (next value) (next' value) post) :
    Carries starts looks (orError read >>= next)
      (fun fuel => orError read >>= fun value => next' value fuel) post := by
  cases read with
  | ok value => exact rest value rfl
  | error message =>
    intro _ _ _ _ succeeds
    cases succeeds

/-- One computation after another. The first may look ahead if the whole may, or if the second
reads something. -/
theorem Carries.bind {first : ParserM β} {first' : Nat → ParserM β} {next : β → ParserM α}
    {next' : β → Nat → ParserM α} {post₁ : β → Reading → Prop} {looks₁ : Prop}
    (here : Carries starts looks₁ first first' post₁)
    (rest : ∀ value reading, post₁ value reading → Carries Whatever looks (next value)
      (next' value) fun result reading' => post result (reading.append reading') ∧
        (looks₁ → looks ∨ reading'.used ≠ [])) :
    Carries starts looks (first >>= next)
      (fun fuel => first' fuel >>= fun value => next' value fuel) post := by
  intro before result after isStart succeeds
  obtain ⟨value, between, ran, ranRest⟩ := bind_eq_ok.mp succeeds
  obtain ⟨reading, holds, isRead, sameDepth, deep, again⟩ := here before value between isStart ran
  obtain ⟨reading', ⟨holds', sees⟩, isRead', sameDepth', deep', again'⟩ :=
    rest value reading holds between result after trivial ranRest
  rw [sameDepth] at sameDepth' deep'
  refine ⟨reading.append reading', holds', ?_, sameDepth', max_le deep deep', ?_⟩
  · rw [isRead, isRead', ← List.append_assoc]
    rfl
  · intro fuel other before' enough sameNext isBefore deepEnough
    have isBefore : before'.kinds = reading.used ++ (reading'.used ++ other) := by
      rw [isBefore, ← List.append_assoc]
      rfl
    -- what follows the first reading starts the same
    have seen : looks₁ → (reading'.used ++ other).head? = between.kinds.head? := by
      intro looksFirst
      rw [isRead']
      rcases sees looksFirst with looksAfter | nonempty
      · rw [List.head?_append, List.head?_append, sameNext looksAfter]
      · cases isUsed : reading'.used with
        | nil => exact absurd isUsed nonempty
        | cons kind used => rfl
    obtain ⟨between', ranAgain, isBetween, sameDepth₁⟩ := again fuel _ before'
      ((le_max_left _ _).trans enough) seen isBefore ((le_max_left _ _).trans deepEnough)
    obtain ⟨after', ranAfter, isAfter, sameDepth₂⟩ := again' fuel other between'
      ((le_max_right _ _).trans enough) sameNext isBetween
      (sameDepth₁ ▸ (le_max_right _ _).trans deepEnough)
    exact ⟨after', (bind_ok ranAgain).trans ranAfter, isAfter, sameDepth₂.trans sameDepth₁⟩

/-- The kind of the next token decides what is done. -/
theorem carries_peek_bind {next : TokenKind → ParserM α} {next' : TokenKind → Nat → ParserM α}
    (rest : ∀ kind, Carries (Next kind) True (next kind) (next' kind) post) :
    Carries starts True (peekKind >>= next) (fun fuel => peekKind >>= fun kind => next' kind fuel)
      post := by
  intro before value after _ succeeds
  obtain ⟨tokens, depth⟩ := before
  cases tokens with
  | nil => cases succeeds
  | cons tok tokens =>
    obtain ⟨reading, holds, isRead, sameDepth, deep, again⟩ :=
      rest tok.kind ⟨tok :: tokens, depth⟩ value after ⟨tokens.map (·.kind), rfl⟩ succeeds
    refine ⟨reading, holds, isRead, sameDepth, deep, ?_⟩
    intro fuel other before' enough sameNext isBefore deepEnough
    obtain ⟨after', ran, isAfter⟩ := again fuel other before' enough sameNext isBefore deepEnough
    refine ⟨after', ?_, isAfter⟩
    have sameHead : before'.kinds.head? = some tok.kind := by
      rw [isBefore, List.head?_append, sameNext trivial, ← List.head?_append, ← isRead]
      rfl
    obtain ⟨tokens', depth'⟩ := before'
    cases tokens' with
    | nil => cases sameHead
    | cons tok' tokens' =>
      have sameKind : tok'.kind = tok.kind := Option.some.inj sameHead
      show next' tok'.kind fuel ⟨tok' :: tokens', depth'⟩ = _
      rw [sameKind]
      exact ran

/-- The next token is read. -/
theorem carries_advance_bind {next : TokenKind → ParserM α} {next' : TokenKind → Nat → ParserM α}
    {kind : TokenKind} (notEof : kind ≠ .eof)
    (rest : Carries Whatever looks (next kind) (next' kind)
      fun value reading => post value (reading.token kind)) :
    Carries (Next kind) looks (advance >>= next)
      (fun fuel => advance >>= fun kind => next' kind fuel) post := by
  intro before value after isNext succeeds
  obtain ⟨tokens, depth⟩ := before
  obtain ⟨kinds', isKinds⟩ := isNext
  obtain ⟨tok, others, rfl, rfl, areOthers⟩ := List.map_eq_cons_iff.mp isKinds
  rw [bind_ok (advance_run notEof others depth)] at succeeds
  obtain ⟨reading, holds, isRead, sameDepth, deep, again⟩ :=
    rest ⟨others, depth⟩ value after trivial succeeds
  refine ⟨reading.token tok.kind, holds, ?_, sameDepth, deep, ?_⟩
  · show tok.kind :: kinds ⟨others, depth⟩ = _
    rw [isRead]
    rfl
  · intro fuel other before' enough sameNext isBefore deepEnough
    obtain ⟨tokens', depth'⟩ := before'
    obtain ⟨tok', others', rfl, isKind, areOthers'⟩ := List.map_eq_cons_iff.mp isBefore
    obtain ⟨after', ran, isAfter⟩ :=
      again fuel other ⟨others', depth'⟩ enough sameNext areOthers' deepEnough
    refine ⟨after', ?_, isAfter⟩
    rw [← isKind] at notEof ran
    exact (bind_ok (advance_run notEof others' depth')).trans ran

theorem carries_discard_bind {next : Unit → ParserM α} {next' : Nat → ParserM α}
    {kind : TokenKind} (notEof : kind ≠ .eof)
    (rest : Carries Whatever looks (next ()) next'
      fun value reading => post value (reading.token kind)) :
    Carries (Next kind) looks (discard advance >>= next)
      (fun fuel => discard advance >>= fun _ => next' fuel) post := by
  simp only [discard_bind]
  exact carries_advance_bind notEof rest

/-- A token is read, where the end will not do. -/
theorem carries_read_bind {next : TokenKind → ParserM α} {next' : TokenKind → Nat → ParserM α}
    (notAtEnd : ∀ state value after, next .eof state ≠ .ok value after)
    (rest : ∀ kind, kind ≠ .eof → Carries Whatever looks (next kind) (next' kind)
      fun value reading => post value (reading.token kind)) :
    Carries starts looks (advance >>= next) (fun fuel => advance >>= fun kind => next' kind fuel)
      post := by
  intro before value after _ succeeds
  obtain ⟨tokens, depth⟩ := before
  cases tokens with
  | nil => cases succeeds
  | cons tok tokens =>
    by_cases atEnd : tok.kind = .eof
    · have stays : advance ⟨tok :: tokens, depth⟩ = .ok tok.kind ⟨tok :: tokens, depth⟩ :=
        if_pos atEnd
      rw [bind_ok stays, atEnd] at succeeds
      exact absurd succeeds (notAtEnd _ _ _)
    · exact carries_advance_bind atEnd (rest tok.kind atEnd) _ value after
        ⟨tokens.map (·.kind), rfl⟩ succeeds

/-- A computation that reads the next token when it is of a kind, and fails when it is not. -/
def ReadsOnly (kind : TokenKind) (computation : ParserM Unit) : Prop :=
  ∀ before after, computation before = .ok () after ↔ before.kinds = kind :: after.kinds ∧
    after = { before with tokens := before.tokens.tail }

theorem carries_only_bind {read : ParserM Unit} {next : Unit → ParserM α}
    {next' : Nat → ParserM α} {kind : TokenKind} (reads : ReadsOnly kind read)
    (rest : Carries Whatever looks (next ()) next'
      fun value reading => post value (reading.token kind)) :
    Carries starts looks (read >>= next) (fun fuel => read >>= fun _ => next' fuel) post := by
  intro before value after _ succeeds
  obtain ⟨⟨⟩, between, ran, ranRest⟩ := bind_eq_ok.mp succeeds
  obtain ⟨isKinds, rfl⟩ := (reads before between).mp ran
  obtain ⟨reading, holds, isRead, sameDepth, deep, again⟩ := rest _ value after trivial ranRest
  refine ⟨reading.token kind, holds, ?_, sameDepth, deep, ?_⟩
  · rw [isKinds, isRead]
    rfl
  · intro fuel other before' enough sameNext isBefore deepEnough
    obtain ⟨tokens', depth'⟩ := before'
    obtain ⟨tok', others', rfl, isKind, areOthers'⟩ := List.map_eq_cons_iff.mp isBefore
    have ran' : read ⟨tok' :: others', depth'⟩ = .ok () ⟨others', depth'⟩ := by
      refine (reads _ _).mpr ⟨?_, rfl⟩
      rw [kinds, List.map_cons, isKind]
      rfl
    obtain ⟨after', ranAfter, isAfter⟩ :=
      again fuel other ⟨others', depth'⟩ enough sameNext areOthers' deepEnough
    exact ⟨after', (bind_ok ran').trans ranAfter, isAfter⟩

/-- A token is read after a look at its kind. -/
theorem readsOnly_of_peek {kind : TokenKind} (notEof : kind ≠ .eof) {isKind : TokenKind → Prop}
    [DecidablePred isKind] (only : ∀ got, isKind got ↔ got = kind)
    {fails : TokenKind → ParserM Unit}
    (notOk : ∀ got before value after, fails got before ≠ .ok value after) :
    ReadsOnly kind (peekKind >>= fun got =>
      if isKind got then discard advance else fails got) := by
  rintro ⟨tokens, depth⟩ after
  cases tokens with
  | nil =>
    constructor
    · intro succeeds
      cases succeeds
    · rintro ⟨isKinds, _⟩
      cases isKinds
  | cons tok tokens =>
    show (if isKind tok.kind then discard advance else fails tok.kind : ParserM Unit) _ = _ ↔ _
    by_cases same : tok.kind = kind
    · have read : advance ⟨tok :: tokens, depth⟩ = .ok tok.kind ⟨tokens, depth⟩ :=
        advance_run (same ▸ notEof) tokens depth
      rw [if_pos ((only _).mpr same), discard_ok read]
      constructor
      · rintro ⟨⟩
        refine ⟨?_, rfl⟩
        rw [kinds, List.map_cons, same]
        rfl
      · rintro ⟨_, rfl⟩
        rfl
    · rw [if_neg (mt (only _).mp same)]
      constructor
      · intro succeeds
        exact absurd succeeds (notOk _ _ _ _)
      · rintro ⟨isKinds, _⟩
        exact absurd (List.cons.inj isKinds).1 same

theorem readsOnly_expect {F : Type} (host : Host F) {kind : TokenKind} (notEof : kind ≠ .eof)
    (only : ∀ got : TokenKind, got.ctorIdx = kind.ctorIdx → got = kind) :
    ReadsOnly kind (discard (expect host kind)) := by
  have looked : (discard (expect host kind) : ParserM Unit) = peekKind >>= fun got =>
      if got.ctorIdx = kind.ctorIdx then discard advance
      else discard (if kind = .rParen ∧ got = .eof then
        failWith "UnbalancedParen: unexpected end of input, missing closing ')'"
      else failWith ("expected " ++ kind.debug host.strDebug ++ ", got " ++
        got.debug host.strDebug) : ParserM TokenKind) := by
    rw [expect, discard_sequence]
    congr 1
    funext got
    exact apply_ite _ _ _ _
  rw [looked]
  refine readsOnly_of_peek notEof (fun got => ⟨only got, congrArg _⟩)
    fun got before value after => ?_
  split_ifs <;> exact nofun

theorem readsOnly_expectSymbol (expected : String) :
    ReadsOnly (.symbol expected) (expectSymbol expected) :=
  readsOnly_of_peek (by simp) (fun _ => Iff.rfl) fun _ _ _ _ => nofun

theorem carries_expect_bind {F : Type} (host : Host F) {next : Unit → ParserM α}
    {next' : Nat → ParserM α} {kind : TokenKind}
    (isClosing : kind = .lParen ∨ kind = .rParen ∨ kind = .rBracket)
    (rest : Carries Whatever looks (next ()) next'
      fun value reading => post value (reading.token kind)) :
    Carries starts looks (discard (expect host kind) >>= next)
      (fun fuel => discard (expect host kind) >>= fun _ => next' fuel) post := by
  refine carries_only_bind (readsOnly_expect host ?_ ?_) rest
  · rcases isClosing with rfl | rfl | rfl <;> exact nofun
  · rintro got same
    rcases isClosing with rfl | rfl | rfl <;> cases got <;> first | rfl | cases same

theorem withDepth_run {before inner : Parser} {value : α} (below : before.depth < maxParseDepth)
    (ran : computation { before with depth := before.depth + 1 } = .ok value inner) :
    withDepth computation before = .ok value { inner with depth := inner.depth - 1 } := by
  rw [withDepth, if_neg (Nat.not_le.mpr below), ran]

/-- A computation one level deeper. -/
theorem Carries.withDepth (carries : Carries starts looks computation computation'
      fun value reading => post value reading.deeper) :
    Carries starts looks (withDepth computation) (fun fuel => withDepth (computation' fuel))
      post := by
  intro before value after isStart succeeds
  obtain ⟨below, inner, ran, rfl⟩ := withDepth_ok succeeds
  obtain ⟨reading, holds, isRead, sameDepth, deep, again⟩ :=
    carries { before with depth := before.depth + 1 } value inner isStart ran
  have sameDepth : inner.depth = before.depth + 1 := sameDepth
  refine ⟨reading.deeper, holds, isRead, ?_, ?_, ?_⟩
  · show inner.depth - 1 = before.depth
    rw [sameDepth, Nat.add_sub_cancel]
  · show reading.need + 1 ≤ maxParseDepth - before.depth
    have deep : reading.need ≤ maxParseDepth - (before.depth + 1) := deep
    omega
  · intro fuel other before' enough sameNext isBefore deepEnough
    have deepEnough : reading.need + 1 ≤ maxParseDepth - before'.depth := deepEnough
    obtain ⟨inner', ran', isAfter, sameDepth'⟩ := again fuel other
      { before' with depth := before'.depth + 1 } enough sameNext isBefore
      (show reading.need ≤ maxParseDepth - (before'.depth + 1) by omega)
    refine ⟨{ inner' with depth := inner'.depth - 1 }, ?_, isAfter, ?_⟩
    · exact withDepth_run (by omega) ran'
    · show inner'.depth - 1 = before'.depth
      rw [sameDepth']
      rfl

/-- A call that takes a unit of fuel. -/
theorem Carries.call {called : Nat → ParserM α}
    (step : ∀ fuel, called (fuel + 1) = computation' fuel)
    (carries : Carries starts looks computation computation'
      fun value reading => post value reading.call) :
    Carries starts looks computation called post := by
  intro before value after isStart succeeds
  obtain ⟨reading, holds, isRead, sameDepth, deep, again⟩ :=
    carries before value after isStart succeeds
  refine ⟨reading.call, holds, isRead, sameDepth, deep, ?_⟩
  intro fuel other before' enough sameNext isBefore deepEnough
  obtain ⟨fuel, rfl⟩ : ∃ less, fuel = less + 1 := ⟨fuel - 1, by
    have enough : reading.fuel + 1 ≤ fuel := enough
    omega⟩
  rw [step]
  exact again fuel other before' (Nat.le_of_succ_le_succ enough) sameNext isBefore deepEnough

/-- A computation whose fuel is told by how many tokens there are. -/
theorem Carries.fueled (fueled : Nat → ParserM α) {size : Nat → Nat} (monotone : Monotone size)
    (carries : ∀ fuel, Carries starts looks (fueled fuel) fueled fun value reading =>
      post value reading.fueled ∧ reading.fuel ≤ size reading.used.length) :
    Carries starts looks (get >>= fun parser => fueled (size parser.tokens.length))
      (fun _ => get >>= fun parser => fueled (size parser.tokens.length)) post := by
  intro before value after isStart succeeds
  obtain ⟨reading, ⟨holds, takes⟩, isRead, sameDepth, deep, again⟩ :=
    carries _ before value after isStart succeeds
  refine ⟨reading.fueled, holds, isRead, sameDepth, deep, ?_⟩
  intro _ other before' _ sameNext isBefore deepEnough
  refine again _ other before' (takes.trans (monotone ?_)) sameNext isBefore deepEnough
  have lengths := congrArg List.length isBefore
  rw [kinds, List.length_map, List.length_append] at lengths
  show reading.used.length ≤ before'.tokens.length
  rw [lengths]
  exact Nat.le_add_right _ _

end Rules

/-! ### Terms and predicates -/

section Methods

variable {F : Type} (host : Host F) {starts : List TokenKind → Prop}

/-- A reading that is balanced, with a bound on the fuel that it takes. -/
structure Cheap (slack : Nat) (reading : Reading) : Prop where
  flat : reading.Flat
  nests : reading.Nests
  fuel : reading.fuel ≤ 2 * reading.used.length + slack

/-- A reading that is balanced and not empty. -/
def OfTerm (reading : Reading) : Prop := reading.used ≠ [] ∧ Cheap 0 reading

theorem ofTerm_token {kind : TokenKind} (isPlain : kind.IsPlain) :
    OfTerm (Reading.nothing.token kind).call :=
  ⟨List.cons_ne_nil _ _, Reading.flat_nothing.token isPlain.isLevel,
    Reading.nests_nothing.token isPlain, Nat.le_add_left 1 1⟩

/-- A token that is a term of its own. -/
theorem carries_leaf {kind : TokenKind} (isPlain : kind.IsPlain) (notEof : kind ≠ .eof)
    {term : Term} : Carries (Next kind) True (discard advance >>= fun _ => pure term)
      (fun _ => discard advance >>= fun _ => pure term) fun _ reading => OfTerm reading.call :=
  carries_discard_bind notEof (.pure (ofTerm_token isPlain))

/-- A token that is a term of its own if the library reads it. -/
theorem carries_literal {kind : TokenKind} (isPlain : kind.IsPlain) (notEof : kind ≠ .eof)
    {α : Type} {read : Except String α} (term : α → Term) :
    Carries (Next kind) True
      (discard advance >>= fun _ => orError read >>= fun value => pure (term value))
      (fun _ => discard advance >>= fun _ => orError read >>= fun value => pure (term value))
      fun _ reading => OfTerm reading.call :=
  carries_discard_bind notEof (carries_orError_bind fun _ _ => .pure (ofTerm_token isPlain))

/-- A balanced reading in brackets. -/
theorem ofTerm_brackets {opening closing : TokenKind} {reading : Reading}
    (isPair : opening = .lParen ∧ closing = .rParen ∨ opening = .lBracket ∧ closing = .rBracket)
    (cheap : Cheap 1 reading) :
    OfTerm ((reading.append (Reading.nothing.token closing)).token opening).deeper.call := by
  refine ⟨List.cons_ne_nil _ _, ?_, cheap.nests.brackets isPair, ?_⟩
  · rcases isPair with ⟨rfl, rfl⟩ | ⟨rfl, rfl⟩
    · exact cheap.flat.parens
    · exact (cheap.flat.append (Reading.flat_nothing.token (by simp [TokenKind.IsLevel]))).token
        (by simp [TokenKind.IsLevel])
  · have bound := cheap.fuel
    show max reading.fuel 0 + 1 ≤ 2 * (reading.used ++ [closing]).length.succ + 0
    rw [List.length_append, List.length_singleton]
    omega

/-- A term before a reading pays for a call. -/
theorem Cheap.append {first second : Reading} (ofTerm : OfTerm first) (cheap : Cheap 1 second) :
    Cheap 1 (first.append second).call := by
  obtain ⟨nonempty, flat, nests, bound⟩ := ofTerm
  refine ⟨flat.append cheap.flat, nests.append cheap.nests, ?_⟩
  have bound' := cheap.fuel
  have positive := List.length_pos_iff.mpr nonempty
  show max first.fuel second.fuel + 1 ≤ 2 * (first.used ++ second.used).length + 1
  rw [List.length_append]
  omega

/-- A key and its value before a reading pay for a call. -/
theorem Cheap.named {first second : Reading} {kind : TokenKind} (isPlain : kind.IsPlain)
    (ofTerm : OfTerm first) (cheap : Cheap 1 second) :
    Cheap 1 ((first.append second).token kind).call := by
  obtain ⟨flat, nests, bound⟩ := Cheap.append ofTerm cheap
  refine ⟨flat.token isPlain.isLevel, nests.token isPlain, ?_⟩
  have bound : max first.fuel second.fuel + 1 ≤ 2 * (first.used ++ second.used).length + 1 := bound
  show max first.fuel second.fuel + 1 ≤ 2 * (kind :: (first.used ++ second.used)).length + 1
  rw [List.length_cons]
  omega

/-- A token that is no bracket before a reading pays for a call. -/
theorem Cheap.token {reading : Reading} {kind : TokenKind} (isPlain : kind.IsPlain)
    (cheap : Cheap 1 reading) : Cheap 1 (reading.token kind).call := by
  refine ⟨cheap.flat.token isPlain.isLevel, cheap.nests.token isPlain, ?_⟩
  have bound := cheap.fuel
  show reading.fuel + 1 ≤ 2 * (kind :: reading.used).length + 1
  rw [List.length_cons]
  omega

mutual

theorem carries_parseTerm : ∀ {starts : List TokenKind → Prop} (fuel : Nat),
    Carries starts True (parseTerm host fuel) (parseTerm host) fun _ reading => OfTerm reading
  | _, 0 => carries_throw _
  | _, fuel + 1 => by
    refine Carries.call (fun fuel => parseTerm.eq_2 host fuel) ?_
    rw [parseTerm]
    refine carries_peek_bind fun kind => ?_
    cases kind with
    | var name => exact carries_leaf (by simp [TokenKind.IsPlain]) (by simp)
    | entity name => exact carries_leaf (by simp [TokenKind.IsPlain]) (by simp)
    | number text => exact carries_literal (by simp [TokenKind.IsPlain]) (by simp) .lit
    | str text => exact carries_leaf (by simp [TokenKind.IsPlain]) (by simp)
    | bool b => exact carries_leaf (by simp [TokenKind.IsPlain]) (by simp)
    | date text =>
      exact carries_literal (by simp [TokenKind.IsPlain]) (by simp) fun d => .lit (.date d)
    | duration text =>
      exact carries_literal (by simp [TokenKind.IsPlain]) (by simp) fun d => .lit (.dur d)
    | uri text => exact carries_leaf (by simp [TokenKind.IsPlain]) (by simp)
    | lParen =>
      refine Carries.withDepth (carries_discard_bind (by simp) ?_)
      refine (carries_parsePredicateBodyInner fuel).bind fun pred reading inside => ?_
      exact carries_expect_bind host (.inr (.inl rfl)) (.pure ⟨ofTerm_brackets (.inl ⟨rfl, rfl⟩)
        inside, fun _ => .inl trivial⟩)
    | lBracket =>
      refine Carries.withDepth (carries_discard_bind (by simp) ?_)
      refine (carries_parseItems fuel []).bind fun items reading inside => ?_
      exact carries_expect_bind host (.inr (.inr rfl)) (.pure ⟨ofTerm_brackets (.inr ⟨rfl, rfl⟩)
        inside, fun _ => .inl trivial⟩)
    | symbol text => exact carries_leaf (by simp [TokenKind.IsPlain]) (by simp)
    | _ => exact carries_failWith _

theorem carries_parseItems : ∀ {starts : List TokenKind → Prop} (fuel : Nat) (items : List Term),
    Carries starts True (parseItems host fuel items) (fun fuel => parseItems host fuel items)
      fun _ reading => Cheap 1 reading
  | _, 0, _ => carries_throw _
  | _, fuel + 1, items => by
    refine Carries.call (fun fuel => parseItems.eq_2 host items fuel) ?_
    rw [parseItems]
    refine carries_peek_bind fun kind => ?_
    have more : Carries (Next kind) True
        (parseTerm host fuel >>= fun term => parseItems host fuel (items ++ [term]))
        (fun fuel => parseTerm host fuel >>= fun term => parseItems host fuel (items ++ [term]))
        fun _ reading => Cheap 1 reading.call := by
      refine (carries_parseTerm fuel).bind fun term reading ofTerm => ?_
      exact (carries_parseItems fuel (items ++ [term])).imp id fun _ reading' cheap =>
        ⟨.append ofTerm cheap, fun _ => .inl trivial⟩
    have done : Carries (Next kind) True (pure items) (fun _ => pure items)
        fun _ reading => Cheap 1 reading.call :=
      .pure ⟨Reading.flat_nothing, Reading.nests_nothing, le_rfl⟩
    cases kind with
    | rBracket => exact done
    | eof => exact done
    | _ => exact more

theorem carries_parsePredicateBodyInner : ∀ {starts : List TokenKind → Prop} (fuel : Nat),
    Carries starts True (parsePredicateBodyInner host fuel) (parsePredicateBodyInner host)
      fun _ reading => Cheap 1 reading
  | _, 0 => carries_throw _
  | _, fuel + 1 => by
    refine Carries.call (fun fuel => parsePredicateBodyInner.eq_2 host fuel) ?_
    rw [parsePredicateBodyInner]
    refine carries_read_bind (fun _ _ _ => nofun) fun kind _ => ?_
    cases kind with
    | symbol text =>
      exact (carries_parseArguments fuel ⟨.name text, [], []⟩ false).imp id
        fun _ reading cheap => cheap.token (by simp [TokenKind.IsPlain])
    | _ => exact carries_failWith _

theorem carries_parseArguments : ∀ {starts : List TokenKind → Prop} (fuel : Nat)
    (pred : Predicate) (inNamed : Bool),
    Carries starts True (parseArguments host fuel pred inNamed)
      (fun fuel => parseArguments host fuel pred inNamed) fun _ reading => Cheap 1 reading
  | _, 0, _, _ => carries_throw _
  | _, fuel + 1, pred, inNamed => by
    refine Carries.call (fun fuel => parseArguments.eq_2 host pred inNamed fuel) ?_
    rw [parseArguments]
    refine carries_peek_bind fun kind => ?_
    have done : Carries (Next kind) True (pure pred) (fun _ => pure pred)
        fun _ reading => Cheap 1 reading.call :=
      .pure ⟨Reading.flat_nothing, Reading.nests_nothing, le_rfl⟩
    have more : Carries (Next kind) True (if inNamed then
        failWith ("NamedArgBeforePositional: positional argument after named argument — " ++
          "named args must be last")
      else parseTerm host fuel >>= fun term =>
        parseArguments host fuel { pred with args := pred.args ++ [term] } inNamed)
        (fun fuel => if inNamed then
          failWith ("NamedArgBeforePositional: positional argument after named argument — " ++
            "named args must be last")
        else parseTerm host fuel >>= fun term =>
          parseArguments host fuel { pred with args := pred.args ++ [term] } inNamed)
        fun _ reading => Cheap 1 reading.call := by
      refine .ite (fun _ => carries_failWith _) fun _ => ?_
      refine (carries_parseTerm fuel).bind fun term reading ofTerm => ?_
      exact (carries_parseArguments fuel _ inNamed).imp id fun _ reading' cheap =>
        ⟨.append ofTerm cheap, fun _ => .inl trivial⟩
    cases kind with
    | rParen => exact done
    | eof => exact done
    | keyword key =>
      refine carries_discard_bind (by simp) ?_
      refine (carries_parseTerm fuel).bind fun term reading ofTerm => ?_
      exact (carries_parseArguments fuel _ true).imp id fun _ reading' cheap =>
        ⟨.named (by simp [TokenKind.IsPlain]) ofTerm cheap, fun _ => .inl trivial⟩
    | _ => exact more

end

end Methods

end Parser

end Factum
