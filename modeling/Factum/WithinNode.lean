/-
This file says that a node is read in the same way whatever comes after it.

Each field of a node is read up to a token of its own or up to the bracket that closes its
form, so it is read between two places of one level of parentheses, and so are the fields
of a node together. A node is therefore read from its opening parenthesis to the one that
closes it, and the same node is read from these tokens before any others.
-/

import Factum.Within

namespace Factum

open Stateful Lexer

namespace Parser

variable {α β : Type} {starts : List TokenKind → Prop} {looks : Prop}

/-! ### Rules -/

/-- A computation that takes no fuel may have as much as it likes. -/
theorem Carries.unfueled {computation again : ParserM α} {post : α → Reading → Prop}
    (carries : Carries starts looks computation (fun _ => again)
      fun value reading => post value reading.fueled) :
    Carries starts looks computation (fun _ => again) post := by
  intro before value after isStart succeeds
  obtain ⟨reading, holds, isRead, sameDepth, deep, same⟩ :=
    carries before value after isStart succeeds
  exact ⟨reading.fueled, holds, isRead, sameDepth, deep,
    fun _ other before' _ => same reading.fuel other before' le_rfl⟩

/-- What is done with a token and leaves the other tokens alone. -/
def Settles (read : TokenKind → ParserM α) : Prop :=
  ∀ kind before value after, read kind before = .ok value after →
    after = before ∧ kind.IsPlain ∧ kind ≠ .eof ∧ ∀ before', read kind before' = .ok value before'

/-- One token is read. -/
theorem Settles.carries {read : TokenKind → ParserM α} (settles : Settles read) :
    Carries starts looks (advance >>= read) (fun _ => advance >>= read)
      fun _ reading => reading.Flat := by
  refine carries_read_bind (fun state value after ran => ?_) fun kind _ => ?_
  · exact (settles _ _ _ _ ran).2.2.1 rfl
  · intro before value after _ ran
    obtain ⟨rfl, isPlain, _, again⟩ := settles _ _ _ _ ran
    refine ⟨.nothing, Reading.flat_nothing.token isPlain.isLevel, rfl, rfl, Nat.zero_le _, ?_⟩
    intro _ other before' _ _ isRead _
    exact ⟨before', again before', isRead, rfl⟩

/-- A result of a library is settled. -/
theorem orError_settles {read : Except String α} {before after : Parser} {value : α}
    (ran : orError read before = .ok value after) :
    after = before ∧ ∀ before', orError read before' = .ok value before' := by
  cases read with
  | ok found =>
    cases ran
    exact ⟨rfl, fun _ => rfl⟩
  | error message => cases ran

/-- A look at a token that is then read does not go beyond what is read. -/
theorem carries_peek_reading {next : TokenKind → ParserM α} {next' : TokenKind → Nat → ParserM α}
    {post : α → Reading → Prop}
    (rest : ∀ kind, Carries (Next kind) looks (next kind) (next' kind)
      fun value reading => post value reading ∧ reading.used ≠ []) :
    Carries starts looks (peekKind >>= next)
      (fun fuel => peekKind >>= fun kind => next' kind fuel) post := by
  intro before value after _ succeeds
  obtain ⟨tokens, depth⟩ := before
  cases tokens with
  | nil => cases succeeds
  | cons tok tokens =>
    obtain ⟨reading, ⟨holds, nonempty⟩, isRead, sameDepth, deep, again⟩ :=
      rest tok.kind ⟨tok :: tokens, depth⟩ value after ⟨tokens.map (·.kind), rfl⟩ succeeds
    refine ⟨reading, holds, isRead, sameDepth, deep, ?_⟩
    intro fuel other before' enough sameNext isBefore deepEnough
    obtain ⟨after', ran, isAfter⟩ := again fuel other before' enough sameNext isBefore deepEnough
    refine ⟨after', ?_, isAfter⟩
    obtain ⟨kind, used, isUsed⟩ := List.exists_cons_of_ne_nil nonempty
    rw [isUsed] at isRead isBefore
    have sameKind : tok.kind = kind := (List.cons.inj isRead).1
    obtain ⟨tokens', depth'⟩ := before'
    obtain ⟨tok', _, rfl, isKind, _⟩ := List.map_eq_cons_iff.mp isBefore
    show next' tok'.kind fuel ⟨tok' :: _, depth'⟩ = _
    rw [isKind, ← sameKind]
    exact ran

section Methods

variable {F : Type} (host : Host F)

/-! ### Tokens with a meaning -/

/-- A computation that reads some tokens between two places of one level, with no look at what
follows them. -/
def Closed (computation : ParserM α) : Prop :=
  ∀ starts, Carries starts False computation (fun _ => computation)
    fun _ reading => reading.used ≠ [] ∧ reading.Flat

theorem Settles.closed {read : TokenKind → ParserM α} (settles : Settles read) :
    Closed (advance >>= read) := by
  intro starts
  refine carries_read_bind (fun state value after ran => ?_) fun kind _ => ?_
  · exact (settles _ _ _ _ ran).2.2.1 rfl
  · intro before value after _ ran
    obtain ⟨rfl, isPlain, _, again⟩ := settles _ _ _ _ ran
    refine ⟨.nothing, ⟨List.cons_ne_nil _ _, Reading.flat_nothing.token isPlain.isLevel⟩, rfl, rfl,
      Nat.zero_le _, ?_⟩
    intro _ other before' _ _ isRead _
    exact ⟨before', again before', isRead, rfl⟩

theorem Closed.bind {first : ParserM β} {next : β → ParserM α} (closed : Closed first)
    (rest : ∀ value, Closed (next value)) : Closed (first >>= next) :=
  fun starts => (closed starts).bind fun value _ holds =>
    (rest value Whatever).imp id fun _ _ holds' =>
      ⟨⟨List.append_ne_nil_of_left_ne_nil holds.1 _, holds.2.append holds'.2⟩, False.elim⟩

theorem Closed.map {first : ParserM β} (closed : Closed first) (f : β → α) :
    Closed (first >>= fun value => pure (f value)) :=
  fun starts => (closed starts).bind fun _ _ holds =>
    .pure ⟨⟨List.append_ne_nil_of_left_ne_nil holds.1 _, holds.2.append Reading.flat_nothing⟩,
      False.elim⟩

theorem closed_failWith (message : String) : Closed (failWith message : ParserM α) :=
  fun _ => carries_failWith message

theorem Closed.ite {condition : Prop} [Decidable condition] {yes no : ParserM α}
    (ifYes : Closed yes) (ifNo : Closed no) : Closed (if condition then yes else no) :=
  fun starts => .ite (fun _ => ifYes starts) fun _ => ifNo starts

/-- A look at a token and then a closed reading. -/
theorem closed_peek {next : TokenKind → ParserM α}
    (rest : ∀ kind, Carries (Next kind) False (next kind) (fun _ => next kind)
      fun _ reading => reading.used ≠ [] ∧ reading.Flat) : Closed (peekKind >>= next) :=
  fun _ => carries_peek_reading fun kind => (rest kind).imp id fun _ _ holds => ⟨holds, holds.1⟩

theorem closed_parseF32 : Closed (parseF32 host) := by
  refine Settles.closed fun kind before value after ran => ?_
  cases kind with
  | number text =>
    obtain ⟨same, again⟩ := orError_settles ran
    exact ⟨same, by simp [TokenKind.IsPlain], by simp, again⟩
  | _ => cases ran

theorem closed_parsePermissionTag : Closed parsePermissionTag := by
  refine Settles.closed fun kind before value after ran => ?_
  cases kind with
  | symbol text =>
    dsimp only at ran ⊢
    cases named : namedPermission text with
    | some tag =>
      rw [named] at ran
      cases ran
      exact ⟨rfl, by simp [TokenKind.IsPlain], by simp, fun _ => rfl⟩
    | none =>
      rw [named] at ran
      cases ran
  | _ => cases ran

theorem closed_parseText (message : String) : Closed (parseText message) := by
  refine Settles.closed fun kind before value after ran => ?_
  cases kind with
  | symbol text =>
    cases ran
    exact ⟨rfl, by simp [TokenKind.IsPlain], by simp, fun _ => rfl⟩
  | str text =>
    cases ran
    exact ⟨rfl, by simp [TokenKind.IsPlain], by simp, fun _ => rfl⟩
  | _ => cases ran

theorem closed_parseU32 : Closed parseU32 := by
  refine Settles.closed fun kind before value after ran => ?_
  cases kind with
  | number text =>
    obtain ⟨bits, between, read, done⟩ := bind_eq_ok.mp ran
    obtain ⟨rfl, again⟩ := orError_settles read
    cases done
    exact ⟨rfl, by simp [TokenKind.IsPlain], by simp, fun _ => bind_ok (again _)⟩
  | _ => cases ran

theorem closed_parseDatetime : Closed (parseDatetime host) := by
  refine Settles.closed fun kind before value after ran => ?_
  cases kind with
  | date text =>
    obtain ⟨date, between, read, done⟩ := bind_eq_ok.mp ran
    obtain ⟨rfl, again⟩ := orError_settles read
    cases done
    exact ⟨rfl, by simp [TokenKind.IsPlain], by simp, fun _ => bind_ok (again _)⟩
  | str text =>
    obtain ⟨same, again⟩ := orError_settles ran
    exact ⟨same, by simp [TokenKind.IsPlain], by simp, again⟩
  | _ => cases ran

/-! ### Forms -/

/-- A computation that reads between two places of one level and then a closing bracket. -/
def ClosesWith (closing : TokenKind) (computation : ParserM α) : Prop :=
  ∀ starts, Carries starts False computation (fun _ => computation)
    fun _ reading => ∃ body : Reading, body.Flat ∧ reading.used = body.used ++ [closing]

/-- A computation that reads a form, from its opening parenthesis to the one that closes it. -/
def IsForm (computation : ParserM α) : Prop :=
  ∀ starts, Carries starts False computation (fun _ => computation)
    fun _ reading => ∃ body : Reading, body.Flat ∧
      reading.used = .lParen :: (body.used ++ [.rParen])

theorem ClosesWith.bind {closing : TokenKind} {first : ParserM β} {next : β → ParserM α}
    (carries : Carries Whatever looks first (fun _ => first) fun _ reading => reading.Flat)
    (rest : ∀ value, ClosesWith closing (next value)) : ClosesWith closing (first >>= next) := by
  refine fun starts => carries.any.bind fun value reading flat => ?_
  refine (rest value Whatever).imp id ?_
  rintro _ reading' ⟨body, flat', isUsed⟩
  refine ⟨⟨reading.append body, flat.append flat', ?_⟩, fun _ => .inr ?_⟩
  · show reading.used ++ reading'.used = (reading.used ++ body.used) ++ [closing]
    rw [isUsed, List.append_assoc]
  · rw [isUsed]
    exact List.append_ne_nil_of_right_ne_nil _ (List.cons_ne_nil _ _)

theorem Closed.flat {computation : ParserM α} (closed : Closed computation) :
    Carries Whatever False computation (fun _ => computation) fun _ reading => reading.Flat :=
  (closed Whatever).imp id fun _ _ holds => holds.2

/-- The closing bracket, after which nothing more is read. -/
theorem closesWith_expect {closing : TokenKind}
    (isClosing : closing = .rParen ∨ closing = .rBracket) {next : Unit → ParserM α}
    (done : ∀ starts, Carries starts False (next ()) (fun _ => next ())
      fun _ reading => reading = .nothing) :
    ClosesWith closing (discard (expect host closing) >>= next) := by
  refine fun starts => carries_expect_bind host (.inr isClosing) ((done Whatever).imp id ?_)
  rintro _ _ rfl
  exact ⟨.nothing, Reading.flat_nothing, rfl⟩

theorem carries_done (value : α) : Carries starts False (pure value) (fun _ => pure value)
    fun _ reading => reading = .nothing := .pure rfl

/-- A reading in brackets. -/
theorem Reading.flat_brackets {opening closing : TokenKind}
    (isPair : opening = .lParen ∧ closing = .rParen ∨ opening = .lBracket ∧ closing = .rBracket)
    {body reading : Reading} (flat : body.Flat)
    (isUsed : reading.used = opening :: (body.used ++ [closing])) : reading.Flat := by
  intro level rest
  rw [isUsed]
  rcases isPair with ⟨rfl, rfl⟩ | ⟨rfl, rfl⟩
  · exact flat.parens level rest
  · have isLevel : TokenKind.IsLevel .rBracket ∧ TokenKind.IsLevel .lBracket := by
      simp [TokenKind.IsLevel]
    exact ((flat.append (Reading.flat_nothing.token isLevel.1)).token isLevel.2) level rest

/-- A form whose opening bracket was looked at. -/
theorem ClosesWith.opened {opening closing : TokenKind}
    (isPair : opening = .lParen ∧ closing = .rParen ∨ opening = .lBracket ∧ closing = .rBracket)
    {next : Unit → ParserM α} (closes : ClosesWith closing (next ())) :
    Carries (Next opening) False (discard advance >>= next) (fun _ => discard advance >>= next)
      fun _ reading => reading.used ≠ [] ∧ reading.Flat := by
  refine carries_discard_bind ?_ ((closes Whatever).imp id ?_)
  · rcases isPair with ⟨rfl, _⟩ | ⟨rfl, _⟩ <;> simp
  · rintro _ reading ⟨body, flat, isUsed⟩
    exact ⟨List.cons_ne_nil _ _, Reading.flat_brackets isPair flat (congrArg _ isUsed)⟩

/-- A form in parentheses. -/
theorem ClosesWith.form {next : Unit → ParserM α} (closes : ClosesWith .rParen (next ())) :
    IsForm (discard (expect host .lParen) >>= next) := by
  refine fun starts => carries_expect_bind host (.inl rfl) ((closes Whatever).imp id ?_)
  rintro _ reading ⟨body, flat, isUsed⟩
  exact ⟨body, flat, congrArg _ isUsed⟩

theorem IsForm.closed {computation : ParserM α} (isForm : IsForm computation) :
    Closed computation := by
  refine fun starts => (isForm starts).imp id ?_
  rintro _ reading ⟨body, flat, isUsed⟩
  exact ⟨isUsed ▸ List.cons_ne_nil _ _, Reading.flat_brackets (.inl ⟨rfl, rfl⟩) flat isUsed⟩

theorem ClosesWith.symbol {closing : TokenKind} {expected : String} {next : Unit → ParserM α}
    (closes : ClosesWith closing (next ())) :
    ClosesWith closing (expectSymbol expected >>= next) := by
  refine fun starts => carries_only_bind (readsOnly_expectSymbol expected)
    ((closes Whatever).imp id ?_)
  rintro _ reading ⟨body, flat, isUsed⟩
  exact ⟨body.token (.symbol expected), flat.token (by simp [TokenKind.IsLevel]),
    congrArg _ isUsed⟩

theorem ClosesWith.read {closing : TokenKind} (message : String) {next : TokenKind → ParserM α}
    (fails : ∀ kind, (∀ text, kind ≠ .symbol text) → next kind = failWith message)
    (closes : ∀ text, ClosesWith closing (next (.symbol text))) :
    ClosesWith closing (advance >>= next) := by
  refine fun starts => carries_read_bind (fun state value after ran => ?_) fun kind _ => ?_
  · rw [fails .eof (by simp)] at ran
    cases ran
  · cases kind with
    | symbol text =>
      refine (closes text Whatever).imp id ?_
      rintro _ reading ⟨body, flat, isUsed⟩
      exact ⟨body.token (.symbol text), flat.token (by simp [TokenKind.IsLevel]),
        congrArg _ isUsed⟩
    | _ =>
      rw [fails _ (by simp)]
      exact carries_failWith _

/-! ### Fields -/

theorem carries_parseIdListLoop : ∀ {starts : List TokenKind → Prop} (fuel : Nat)
    (ids : List NodeId), Carries starts True (parseIdListLoop fuel ids)
      (fun fuel => parseIdListLoop fuel ids)
      fun _ reading => reading.Flat ∧ reading.fuel ≤ reading.used.length + 1
  | _, 0, _ => carries_throw _
  | _, fuel + 1, ids => by
    refine Carries.call (fun fuel => rfl) ?_
    rw [parseIdListLoop]
    refine carries_peek_bind fun kind => ?_
    have done : Carries (Next kind) True (pure ids) (fun _ => pure ids)
        fun _ reading => reading.call.Flat ∧ reading.call.fuel ≤ reading.call.used.length + 1 :=
      .pure ⟨Reading.flat_nothing, le_rfl⟩
    have more : Carries (Next kind) True
        (advance >>= parseIdListNext fuel ids) (fun fuel => advance >>= parseIdListNext fuel ids)
        fun _ reading => reading.call.Flat ∧ reading.call.fuel ≤ reading.call.used.length + 1 := by
      refine carries_read_bind (fun _ _ _ => nofun) fun kind _ => ?_
      cases kind with
      | symbol text =>
        refine (carries_parseIdListLoop fuel (ids ++ [⟨text⟩])).imp id ?_
        rintro _ reading ⟨flat, bound⟩
        exact ⟨flat.token (by simp [TokenKind.IsLevel]), Nat.succ_le_succ bound⟩
      | _ => exact carries_failWith _
    cases kind with
    | rBracket => exact done
    | eof => exact done
    | _ => exact more

/-- What is done with an identifier that is not in a list. -/
def parseOneId : TokenKind → ParserM (List NodeId)
  | .symbol s => pure [⟨s⟩]
  | _ => failWith "expected node id"

theorem closed_parseIdList : Closed (parseIdList host) := by
  refine closed_peek fun kind => .ite (fun isBracket => ?_) fun _ => ?_
  · rw [isBracket]
    refine ClosesWith.opened (.inr ⟨rfl, rfl⟩) ?_
    rw [← bind_assoc]
    have more : Monotone fun length => length + 1 := fun _ _ le => Nat.succ_le_succ le
    exact .bind (Carries.fueled (fun fuel => parseIdListLoop fuel []) more
        fun fuel => carries_parseIdListLoop fuel [])
      fun ids => closesWith_expect host (.inr rfl) fun _ => carries_done ids
  · have settles : Settles parseOneId := by
      intro kind before value after ran
      cases kind with
      | symbol text =>
        cases ran
        exact ⟨rfl, by simp [TokenKind.IsPlain], by simp, fun _ => rfl⟩
      | _ => cases ran
    exact settles.closed _

theorem closed_parseSpan : Closed (parseSpan host) := by
  refine closed_peek fun kind => .ite (fun isBracket => ?_) fun _ => ?_
  · rw [isBracket]
    refine ClosesWith.opened (.inr ⟨rfl, rfl⟩) ?_
    exact .bind closed_parseU32.flat fun start => .bind closed_parseU32.flat fun stop =>
      closesWith_expect host (.inr rfl) fun _ => carries_done _
  · exact (closed_parseU32.bind fun start => closed_parseU32.map _) _

theorem closed_parseModelRef : Closed (parseModelRef host) := by
  refine closed_peek fun kind => ?_
  have texts : Closed (parseSmolStr >>= fun name => parseSmolStr >>= fun version =>
      pure (⟨name, version⟩ : ModelRef)) :=
    (closed_parseText _).bind fun name => (closed_parseText _).map _
  cases kind with
  | lParen =>
    refine ClosesWith.opened (.inl ⟨rfl, rfl⟩) (.symbol ?_)
    exact .bind (closed_parseText _).flat fun name => .bind (closed_parseText _).flat fun version =>
      closesWith_expect host (.inl rfl) fun _ => carries_done _
  | symbol text => exact texts _
  | str text => exact texts _
  | _ => exact carries_failWith _

theorem closed_parseProvenanceOf (kind : String) : Closed (parseProvenanceOf host kind) := by
  have doc : Closed parseDocId := (closed_parseText _).map DocId.mk
  have rule : Closed parseRuleId := (closed_parseText _).map RuleId.mk
  refine .ite ?_ (.ite ?_ (.ite ?_ (.ite ?_ (.ite ?_ (closed_failWith _)))))
  · exact doc.bind fun doc => (closed_parseSpan host).map _
  · exact doc.bind fun doc => (closed_parseSpan host).map _
  · exact doc.bind fun doc => (closed_parseSpan host).bind fun span =>
      (closed_parseModelRef host).map _
  · refine fun starts => carries_read_bind (fun _ _ _ => nofun) fun kind _ => ?_
    cases kind with
    | symbol text =>
      exact ((rule.map _) Whatever).imp id fun _ _ holds =>
        ⟨List.cons_ne_nil _ _, holds.2.token (by simp [TokenKind.IsLevel])⟩
    | _ => exact carries_failWith _
  · exact ((closed_parseText _).map Principal.mk).map _

theorem closed_parseProvenance : Closed (parseProvenance host) := by
  refine (ClosesWith.form host (.read "expected provenance kind symbol"
    (fun kind notSymbol => ?_) fun kind => ?_)).closed
  · cases kind with
    | symbol text => exact absurd rfl (notSymbol text)
    | _ => rfl
  · exact .bind (closed_parseProvenanceOf host kind).flat fun result =>
      closesWith_expect host (.inl rfl) fun _ => carries_done result

/-- The end of a window, before which the next token is looked at. -/
theorem carries_parseUntil : Carries Whatever True (parseUntil host) (fun _ => parseUntil host)
    fun _ reading => reading.Flat := by
  refine carries_peek_bind fun kind => .ite (fun _ => .pure Reading.flat_nothing) fun _ => ?_
  exact (((closed_parseDatetime host).map some) _).imp False.elim fun _ _ holds => holds.2

theorem closed_parseValidity : Closed (parseValidity host) := by
  refine closed_peek fun kind => ?_
  split
  · refine carries_discard_bind (by simp) (.pure ⟨List.cons_ne_nil _ _, ?_⟩)
    exact Reading.flat_nothing.token (by simp [TokenKind.IsLevel])
  · refine ClosesWith.opened (.inl ⟨rfl, rfl⟩) (.symbol ?_)
    exact .bind (closed_parseDatetime host).flat fun from_ => .bind (carries_parseUntil host)
      fun until_ => closesWith_expect host (.inl rfl) fun _ => carries_done _
  · exact carries_failWith _

theorem Closed.withDepth {computation : ParserM α} (closed : Closed computation) :
    Closed (withDepth computation) :=
  fun starts => .withDepth ((closed starts).imp id fun _ _ holds => holds)

/-- The inside of a predicate is nested as deep as its brackets are. -/
theorem carries_predicateInside : Carries Whatever True
    (get >>= fun parser => parsePredicateBodyInner host parser.termFuel)
    (fun _ => get >>= fun parser => parsePredicateBodyInner host parser.termFuel)
    fun _ reading => reading.Flat ∧ reading.Nests := by
  have more : Monotone fun length => 2 * length + 2 :=
    fun _ _ le => Nat.add_le_add_right (Nat.mul_le_mul_left 2 le) 2
  refine Carries.fueled (parsePredicateBodyInner host) more fun fuel => ?_
  refine (carries_parsePredicateBodyInner host fuel).imp id fun _ reading cheap => ?_
  exact ⟨⟨cheap.flat, cheap.nests⟩, cheap.fuel.trans (Nat.le_succ _)⟩

theorem closed_parsePredicateForm : Closed (parsePredicateForm host) := by
  refine .withDepth (ClosesWith.form host ?_).closed
  rw [← bind_assoc]
  exact .bind ((carries_predicateInside host).imp id fun _ _ holds => holds.1)
    fun pred => closesWith_expect host (.inl rfl) fun _ => carries_done pred

/-- A reading whose result is checked. -/
theorem Closed.check {γ : Type} {first : ParserM β} {check : β → Except String γ} {f : γ → α}
    (closed : Closed first) :
    Closed (first >>= fun value => orError (check value) >>= fun checked => pure (f checked)) :=
  fun starts => (closed starts).bind fun _ _ holds => carries_orError_bind fun _ _ =>
    .pure ⟨⟨List.append_ne_nil_of_left_ne_nil holds.1 _, holds.2.append Reading.flat_nothing⟩,
      False.elim⟩

variable [F32 F]

theorem closed_parseField (fields : NodeFields F) (key : String) :
    Closed (parseField host fields key) := by
  refine .ite ?_ (.ite ?_ (.ite ?_ (.ite ?_ (.ite ?_ (.ite ?_ (.ite ?_ (.ite ?_
    (closed_failWith _))))))))
  · exact (closed_parsePredicateForm host).map _
  · exact (closed_parseValidity host).map _
  · exact (closed_parseProvenance host).map _
  · exact (closed_parseF32 host).check
  · exact (closed_parseF32 host).check
  · exact closed_parsePermissionTag.map _
  · exact (closed_parseIdList host).map _
  · exact (closed_parseText _).map _

theorem carries_parseFields : ∀ {starts : List TokenKind → Prop} (fuel : Nat)
    (fields : NodeFields F), Carries starts True (parseFields host fuel fields)
      (fun fuel => parseFields host fuel fields)
      fun _ reading => reading.Flat ∧ reading.fuel ≤ reading.used.length + 1
  | _, 0, _ => carries_throw _
  | _, fuel + 1, fields => by
    refine Carries.call (fun fuel => rfl) ?_
    rw [parseFields]
    refine carries_peek_bind fun kind => ?_
    have done : Carries (Next kind) True (pure fields) (fun _ => pure fields)
        fun _ reading => reading.call.Flat ∧ reading.call.fuel ≤ reading.call.used.length + 1 :=
      .pure ⟨Reading.flat_nothing, le_rfl⟩
    cases kind with
    | rParen => exact done
    | eof => exact done
    | keyword key =>
      refine carries_discard_bind (by simp) ?_
      have field : Carries Whatever False (parseField host fields key)
          (fun _ => parseField host fields key)
          fun _ reading => reading.Flat ∧ reading.fuel = 0 :=
        .unfueled ((closed_parseField host fields key Whatever).imp id
          fun _ _ holds => ⟨holds.2, rfl⟩)
      refine field.bind fun fields reading holds => ?_
      refine (carries_parseFields fuel fields).imp id ?_
      rintro _ reading' ⟨flat, bound⟩
      refine ⟨⟨(holds.1.append flat).token (by simp [TokenKind.IsLevel]), ?_⟩, False.elim⟩
      show max reading.fuel reading'.fuel + 1 ≤
        (TokenKind.keyword key :: (reading.used ++ reading'.used)).length + 1
      rw [holds.2, List.length_cons, List.length_append]
      omega
    | _ => exact carries_failWith _

theorem isForm_parseNode : IsForm (parseNode host) := by
  refine fun starts => .withDepth (ClosesWith.form host (.symbol (.read "expected node id"
    (fun kind notSymbol => ?_) fun id => ?_)) starts)
  · cases kind with
    | symbol text => exact absurd rfl (notSymbol text)
    | _ => rfl
  · have more : Monotone fun length => length + 1 := fun _ _ le => Nat.succ_le_succ le
    dsimp only
    rw [← bind_assoc]
    refine .bind (Carries.fueled (fun fuel => parseFields host fuel .default) more
      fun fuel => carries_parseFields host fuel .default) fun fields => ?_
    refine closesWith_expect host (.inl rfl) fun starts => ?_
    cases fields.predicate with
    | none => exact carries_failWith _
    | some predicate => exact carries_done _

end Methods

end Parser

end Factum
