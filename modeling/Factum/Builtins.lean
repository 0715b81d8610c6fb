/-
This file embeds the built-in verifiers and says what they keep out of a store.

The decimal verifier promises that the decimals of a node are representable. It looks
at the literals among the positional arguments of the predicate and no deeper, so a
decimal in a named argument, a compound or a list passes it unseen. A store with the
built-in verifiers is therefore within the limits throughout a run exactly when every
call stores only nodes whose unseen decimals are within them already.
-/

import Factum.Retraction

namespace Factum

variable {F : Type}

/-! ### The schema verifier -/

/-- The text before the first `->`. -/
def beforeArrow : List Char → List Char
  | [] => []
  | '-' :: '>' :: _ => []
  | c :: rest => c :: beforeArrow rest

/-- The parameters that a signature lists before its arrow. -/
def signatureParams (raw : List Char) : List (List Char) :=
  (((beforeArrow raw).splitOn ',').map trim).filter fun param => !param.isEmpty

/-- What is wrong with the number of arguments that a predicate gives to a signature. -/
def arityFault (raw : List Char) (provided : Nat) : Option String :=
  let params := signatureParams raw
  let required := params.countP fun param => param.getLast? != some '?'
  if !decide (['-', '>'] <:+: raw) || params.isEmpty then none
  else if provided < required then
    some ("arity mismatch: expected at least " ++ toString required ++ " args (" ++
      toString required ++ " required, " ++ toString (params.length - required) ++
      " optional), got " ++ toString provided)
  else if params.length < provided then
    some ("arity mismatch: expected at most " ++ toString params.length ++ " args, got " ++
      toString provided)
  else none

/-- The definition of a predicate head. -/
def MorphemeRegistry.lookupHead (registry : MorphemeRegistry) :
    PredicateHead → Option MorphemeDef
  | .name name => registry.lookup name
  | .id id => registry.lookupId id

/-- Schema verifier: the head is defined, its signature takes the arguments, and an entity
takes none. -/
def SchemaVerifier (registry : MorphemeRegistry) : Verifier F where
  canVerify node := (registry.lookupHead node.predicate.head).isSome
  verify node :=
    match registry.lookupHead node.predicate.head with
    | none => .fail "unknown morpheme"
    | some definition =>
      let predicate := node.predicate
      match arityFault definition.signature.raw.toList
          (predicate.args.length + predicate.named.length) with
      | some reason => .fail reason
      | none =>
        if definition.kind == .entity && !predicate.args.isEmpty then
          .fail "entity-type morpheme used with arguments"
        else .pass

/-! ### The decimal verifier -/

/-- `matches!(t, Term::Lit(Literal::Dec(_, _)))`. -/
def Term.isDec : Term → Bool
  | .lit (.dec _ _) => true
  | _ => false

/-- The loop of the decimal verifier over the positional arguments. -/
def verifyDecimals : List Term → Verdict
  | [] => .pass
  | .lit (.dec mantissa scale) :: rest =>
    let digits := (Nat.toDigits 10 mantissa.val.natAbs).length
    if 38 < scale then
      .fail ("decimal scale " ++ toString scale.toNat ++ " exceeds maximum 38")
    else if 38 < digits then
      .fail ("decimal has " ++ toString digits ++ " digits, exceeds maximum 38")
    else verifyDecimals rest
  | _ :: rest => verifyDecimals rest

/-- Decimal range verifier. -/
def DecimalRangeVerifier : Verifier F where
  canVerify node := node.predicate.args.any Term.isDec
  verify node := verifyDecimals node.predicate.args

/-- The registry of the built-in verifiers. -/
def VerifierRegistry.withBuiltins (registry : MorphemeRegistry) : VerifierRegistry F :=
  (VerifierRegistry.new.add (SchemaVerifier registry)).add DecimalRangeVerifier

/-- Enable the built-in verifiers. -/
def FactumStore.enableVerifiers {B : Type} (store : FactumStore F B) : FactumStore F B :=
  { store with verifiers := some (.withBuiltins store.registry) }

/-! ### The limits of a decimal -/

/-- A literal within the limits: a scale of at most 38, and at most 38 digits. -/
def Literal.InRange : Literal → Prop
  | .dec mantissa scale => scale.toNat ≤ 38 ∧ mantissa.val.natAbs < 10 ^ 38
  | _ => True

mutual

/-- A term whose decimals, at any depth, are within the limits. -/
def Term.InRange : Term → Prop
  | .lit literal => literal.InRange
  | .compound pred => pred.InRange
  | .list items => Term.InRangeList items
  | .var _ | .ent _ => True

/-- A predicate whose decimals, at any depth, are within the limits. -/
def Predicate.InRange : Predicate → Prop
  | ⟨_, args, named⟩ => Term.InRangeList args ∧ Term.InRangeNamed named

/-- Terms whose decimals are within the limits. -/
def Term.InRangeList : List Term → Prop
  | [] => True
  | term :: rest => term.InRange ∧ Term.InRangeList rest

/-- Named arguments whose decimals are within the limits. -/
def Term.InRangeNamed : List (String × Term) → Prop
  | [] => True
  | (_, term) :: rest => term.InRange ∧ Term.InRangeNamed rest

end

/-- The decimals of a predicate that the verifier does not look at are within the limits:
those of the named arguments, and those nested in a positional argument. -/
def Predicate.UnseenInRange (predicate : Predicate) : Prop :=
  Term.InRangeNamed predicate.named ∧
    ∀ arg ∈ predicate.args, arg.isDec = false → arg.InRange

theorem Term.inRangeList_iff (terms : List Term) :
    InRangeList terms ↔ ∀ term ∈ terms, term.InRange := by
  induction terms with
  | nil => simp [InRangeList]
  | cons term rest inductionHypothesis => simp [InRangeList, inductionHypothesis]

/-! ### What the verifiers let through -/

/-- A registry fails a node only through a verifier that applies to it, and passes it only
when no verifier that applies fails it. -/
theorem VerifierRegistry.verifyLoop_ne_fail {node : Node F} {verifiers : List (Verifier F)} :
    ∀ {anyRan : Bool}, (∀ reason, verifyLoop node verifiers anyRan ≠ .fail reason) ↔
      ∀ verifier ∈ verifiers, verifier.canVerify node = true →
        ∀ reason, verifier.verify node ≠ .fail reason := by
  induction verifiers with
  | nil =>
    intro anyRan
    cases anyRan <;> simp [verifyLoop]
  | cons verifier rest inductionHypothesis =>
    intro anyRan
    rw [List.forall_mem_cons, verifyLoop]
    by_cases applies : verifier.canVerify node = true
    · rw [if_pos applies]
      cases verdict : verifier.verify node with
      | fail reason => simp [applies]
      | pass => simp [inductionHypothesis]
      | inconclusive => simp [inductionHypothesis]
    · rw [if_neg applies, inductionHypothesis]
      simp [applies]

/-- The decimal verifier passes a list of arguments exactly when the decimals among them are
within the limits. -/
theorem verifyDecimals_ne_fail (args : List Term) :
    (∀ reason, verifyDecimals args ≠ .fail reason) ↔
      ∀ arg ∈ args, arg.isDec = true → arg.InRange := by
  fun_induction verifyDecimals args with
  | case1 => simp
  | case2 rest mantissa scale large =>
    refine iff_of_false (fun never => never _ rfl) fun all => ?_
    have inRange := all _ List.mem_cons_self rfl
    rw [Term.InRange, Literal.InRange] at inRange
    exact absurd (UInt8.lt_iff_toNat_lt.mp large) (not_lt.mpr inRange.1)
  | case3 rest mantissa scale digits fits large =>
    refine iff_of_false (fun never => never _ rfl) fun all => ?_
    have inRange := all _ List.mem_cons_self rfl
    rw [Term.InRange, Literal.InRange] at inRange
    exact absurd large (not_lt.mpr
      ((Nat.length_toDigits_le_iff (by decide) (by decide)).mpr inRange.2))
  | case4 rest mantissa scale digits fits short inductionHypothesis =>
    rw [inductionHypothesis, List.forall_mem_cons]
    refine (and_iff_right fun _ => ?_).symm
    rw [Term.InRange, Literal.InRange]
    exact ⟨not_lt.mp fun large => fits (UInt8.lt_iff_toNat_lt.mpr large),
      (Nat.length_toDigits_le_iff (by decide) (by decide)).mp (not_lt.mp short)⟩
  | case5 arg rest notDec inductionHypothesis =>
    rw [inductionHypothesis, List.forall_mem_cons]
    refine (and_iff_right fun isDec => ?_).symm
    unfold Term.isDec at isDec
    split at isDec
    · exact absurd rfl (notDec _ _)
    · cases isDec

theorem Predicate.inRange_iff (predicate : Predicate) :
    predicate.InRange ↔
      (∀ arg ∈ predicate.args, arg.isDec = true → arg.InRange) ∧ predicate.UnseenInRange := by
  cases predicate with
  | mk head args named =>
    rw [InRange, Term.inRangeList_iff, UnseenInRange]
    constructor
    · exact fun ⟨inArgs, inNamed⟩ => ⟨fun arg member _ => inArgs arg member, inNamed,
        fun arg member _ => inArgs arg member⟩
    · rintro ⟨seen, inNamed, unseen⟩
      refine ⟨fun arg member => ?_, inNamed⟩
      by_cases isDec : arg.isDec = true
      · exact seen arg member isDec
      · exact unseen arg member (Bool.eq_false_iff.mpr isDec)

namespace FactumStore

/-- A store with the built-in verifiers rejects no node only when the decimals that they look at
are within the limits. -/
theorem seen_inRange_of_accepted {store : MemStore F} {registry : MorphemeRegistry}
    (enabled : store.verifiers = some (.withBuiltins registry)) {node : Node F}
    (accepted : store.rejection node = none) :
    ∀ arg ∈ node.predicate.args, arg.isDec = true → arg.InRange := by
  have passed : ∀ reason,
      VerifierRegistry.verify (.withBuiltins registry) node ≠ .fail reason := by
    intro reason fails
    rw [rejection, enabled] at accepted
    simp only [fails] at accepted
    cases accepted
  have each := VerifierRegistry.verifyLoop_ne_fail.mp passed
  intro arg member isDec
  refine (verifyDecimals_ne_fail _).mp (each DecimalRangeVerifier ?_ ?_) arg member isDec
  · simp [VerifierRegistry.withBuiltins, VerifierRegistry.add]
  · exact List.any_eq_true.mpr ⟨arg, member, isDec⟩

/-! ### Runs with the built-in verifiers -/

/-- A call that leaves the verifiers as they are. -/
def KeepsVerifiers : Call F → Prop
  | .setVerifiers _ => False
  | _ => True

theorem verifiers_after {store : MemStore F} (keyed : store.Keyed) {call : Call F}
    (keeps : KeepsVerifiers call) : (store.after call).verifiers = store.verifiers := by
  have taken : ∀ nodes, (store.admitted nodes).verifiers = store.verifiers := by
    intro nodes
    rw [admitted, foldl_takeNode]
    rfl
  cases call with
  | insert node =>
    by_cases accepts : store.Accepts [node]
    · rw [after_insert_of_accepts accepts, taken]
    · rw [after_insert_of_not_accepts accepts]
  | insertBatch nodes =>
    by_cases accepts : store.Accepts nodes
    · rw [after_insertBatch_of_accepts accepts]
      exact taken nodes
    · rw [after_insertBatch_of_not_accepts accepts]
  | retractWithLimit id maxNodes =>
    by_cases retracts : store.Retracts id maxNodes
    · rw [after_retract_of_retracts keyed retracts]
      exact (retractAll_same _ store).2.2.2.2.1
    · rcases after_retract_of_idle retracts with same | told
      · rw [same]
      · rw [told]
        rfl
  | subscribe pattern => rfl
  | setVerifiers verifiers => exact keeps.elim

/-- Throughout a run from an empty store with the built-in verifiers the decimals of the stored
nodes are within the limits exactly when every call stores only nodes whose decimals that the
verifiers do not look at are. -/
theorem run_decimals_inRange_iff (nodeOrder : Hash.Order NodeId)
    (hasher : Cf → Hash.Order (List UInt8)) (registry : MorphemeRegistry) (calls : List (Call F))
    (neverDisabled : ∀ call ∈ calls, KeepsVerifiers call) :
    (∀ early, early <+: calls →
        ((MemStore.empty nodeOrder hasher registry).enableVerifiers.run early).EveryStored
          fun node => node.predicate.InRange) ↔
      Along (StoresEvery fun node => node.predicate.UnseenInRange)
        (MemStore.empty nodeOrder hasher registry).enableVerifiers calls := by
  have keeps : ∀ (store : MemStore F) (call : Call F),
      store.Consistent ∧ store.verifiers = some (.withBuiltins registry) → KeepsVerifiers call →
      (store.after call).Consistent ∧
        (store.after call).verifiers = some (.withBuiltins registry) :=
    fun store call ⟨consistent, enabled⟩ keepsVerifiers =>
      ⟨consistent.after call, (verifiers_after consistent.keyed keepsVerifiers).trans enabled⟩
  have step : ∀ (store : MemStore F) (call : Call F),
      store.Consistent ∧ store.verifiers = some (.withBuiltins registry) →
      store.EveryStored (fun node => node.predicate.InRange) → KeepsVerifiers call →
      ((store.after call).EveryStored (fun node => node.predicate.InRange) ↔
        store.StoresEvery (fun node => node.predicate.UnseenInRange) call) := by
    rintro store call ⟨consistent, enabled⟩ holds -
    refine (everyStored_after_iff (fun _ inRange => inRange) consistent.keyed holds call).trans
      (forall_congr' fun accepts => forall₂_congr fun node member => ?_)
    show node.predicate.InRange ↔ node.predicate.UnseenInRange
    rw [Predicate.inRange_iff]
    exact and_iff_right (seen_inRange_of_accepted enabled (accepts.verified node member))
  have consistent := consistent_empty (F := F) nodeOrder hasher registry
  have isEnabled :
      (enableVerifiers (MemStore.empty nodeOrder hasher registry : MemStore F)).verifiers =
        some (.withBuiltins registry) := by
    rw [MemStore.empty_eq]
    rfl
  exact run_iff_along keeps step calls
    ⟨consistent.congr ⟨fun _ => rfl, fun _ _ => rfl, rfl, rfl⟩, isEnabled⟩
    (everyStored_empty nodeOrder hasher registry)
    (along_of_mem (fun call member _ => neverDisabled call member) _)

/-- A fact with a decimal of fifty places in a named argument. -/
def fine : Node Rat := Node.new "n1" ⟨.name "revenue", [.ent ⟨"X"⟩],
  [("amount", .lit (.dec ⟨1, by decide⟩ 50))]⟩

/-- A fact with a decimal of two places among its arguments. -/
def coarse : Node Rat := Node.new "n1" ⟨.name "revenue", [.ent ⟨"X"⟩,
  .lit (.dec ⟨23050, by decide⟩ 2)], []⟩

/-- A decimal among the positional arguments is looked at. -/
theorem run_decimals_inRange_iff_coarse :
    (∀ early, early <+: [.insert coarse] →
        (blank.enableVerifiers.run early).EveryStored fun node => node.predicate.InRange) ↔
      Along (StoresEvery fun node => node.predicate.UnseenInRange) blank.enableVerifiers
        [.insert coarse] :=
  run_decimals_inRange_iff _ _ _ _ (List.forall_mem_singleton.mpr trivial)

/-- A decimal in a named argument passes the verifiers. -/
theorem fine_decimal_stored :
    ¬ ∀ calls : List (Call Rat), (∀ call ∈ calls, KeepsVerifiers call) →
      (blank.enableVerifiers.run calls).EveryStored fun node => node.predicate.InRange := by
  intro every
  have stored : (blank.enableVerifiers.run [.insert fine]).nodeAt ⟨"n1"⟩ = some fine := by
    decide +kernel
  have inRange := every [.insert fine] (List.forall_mem_singleton.mpr trivial) _ _ stored
  exact absurd inRange.2.1.1 (by decide)

end FactumStore

end Factum
