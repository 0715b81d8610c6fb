/-
This file is about the scores of the stored nodes.

Confidence and authority are numbers between zero and one. The parser checks the scores
that a text gives, and the default scores are in range, so every tool that parses nodes
stores scores in range. An assertion takes its confidence from the arguments as it is: it
is checked against a band, and a number outside the band is stored all the same. The
scores are in range throughout a run exactly when every assertion that is stored gives a
confidence in range, or none.
-/

import Factum.Asserts

namespace Factum

open Stateful

variable {D F : Type}

/-- A node whose scores are numbers in the unit interval. -/
def Node.Scored [F32 F] (node : Node F) : Prop :=
  F32.inUnit node.confidence.value = true ∧ F32.inUnit node.authority.value = true

instance [F32 F] (node : Node F) : Decidable node.Scored :=
  inferInstanceAs (Decidable (_ ∧ _))

namespace McpHandler

open FactumStore

section Assertions

variable [F32 F] (out : WriteOutside D F)

/-- An assertion whose node is taken gives a confidence in the unit interval, or none. -/
def AssertScored (handler : MemHandler F) (call : HandlerCall D) : Prop :=
  ∀ args, call.tool = .assert args → ∀ params predicate, AssertReads out args params predicate →
    handler.store.Accepts [assertedNode out params predicate] →
      ∀ confidence, params.confidence = some confidence → F32.inUnit confidence = true

variable {out}

/-- The parser returns nodes whose scores are in range. -/
theorem parsesAs_scored (defaults : Parser.DefaultsInUnit F) : ParsesAs out Node.Scored := by
  intro text nodes parsed node member _
  have read := (Parser.readsAs_of_parse out.host parsed node member).1.2 defaults
  exact ⟨read.confidence, read.authority⟩

/-- The node of an assertion is in range exactly when the confidence that it gives is. -/
theorem scored_assertedNode_iff (defaults : Parser.DefaultsInUnit F)
    (params : FactumAssertParams F) (predicate : Predicate) :
    (assertedNode out params predicate).Scored ↔
      ∀ confidence, params.confidence = some confidence → F32.inUnit confidence = true := by
  show F32.inUnit (assertConfidence params).value = true ∧ F32.inUnit (F32.lit 5 1 : F) = true ↔ _
  rw [and_iff_left defaults.2, assertConfidence]
  cases params.confidence with
  | none => exact iff_of_true defaults.1 fun _ impossible => by cases impossible
  | some given => exact ⟨fun inUnit _ same => Option.some.inj same ▸ inUnit, fun all => all _ rfl⟩

/-- Calls of the store that offer only nodes in range keep the stored ones in range. -/
theorem everyScored_of_performs {before after : MemHandler F}
    (reachable : Reachable before.store) (scored : before.store.EveryStored Node.Scored)
    (performs : Performs Node.Scored before after) : after.store.EveryStored Node.Scored := by
  obtain ⟨calls, isAfter, ofKind⟩ := performs
  rw [isAfter]
  clear isAfter
  generalize before.store = store at *
  induction calls generalizing store with
  | nil => exact scored
  | cons call rest inductionHypothesis =>
    obtain ⟨offered, later⟩ := List.forall_mem_cons.mp ofKind
    refine inductionHypothesis later _ (reachable.step call) ?_
    exact (everyStored_after_iff (fun _ inRange => inRange) reachable.consistent.keyed scored
      call).mpr fun _ => offered

/-- An assertion keeps the stored scores in range exactly when the confidence of its node is,
where the node is taken. -/
theorem everyScored_assert_iff (defaults : Parser.DefaultsInUnit F) {handler : MemHandler F}
    (scored : handler.store.EveryStored Node.Scored) (now : DateTime)
    (preferredForm : PreferredForm) (req : JsonRpcRequest D) (args : Json D) :
    (handler.after out ⟨now, preferredForm, req, .assert args⟩).store.EveryStored Node.Scored ↔
      AssertScored out handler ⟨now, preferredForm, req, .assert args⟩ := by
  by_cases read : ∃ params predicate, AssertReads out args params predicate
  · obtain ⟨params, predicate, reads⟩ := read
    obtain ⟨queue, reply, later, ran, _, asserted⟩ := asserted_of_reads req (reads.at_ now) handler
    have isAfter : handler.after out ⟨now, preferredForm, req, .assert args⟩ = later := final_ok ran
    have taken : AssertScored out handler ⟨now, preferredForm, req, .assert args⟩ ↔
        (handler.store.Accepts [assertedNode out params predicate] →
          (assertedNode out params predicate).Scored) := by
      rw [scored_assertedNode_iff defaults]
      constructor
      · exact fun scores => scores args rfl params predicate reads
      · intro scores args' same params' predicate' reads'
        cases same
        obtain ⟨rfl, rfl⟩ := reads.unique reads'
        exact scores
    rw [isAfter, taken]
    cases asserted with
    | refused _ rejects =>
      exact iff_of_true scored fun accepts =>
        absurd (accepts.verified _ List.mem_cons_self) rejects
    | asserted _ accepts =>
      refine (everyStored_admitted_iff scored accepts).trans ?_
      rw [List.forall_mem_singleton]
      exact ⟨fun inRange _ => inRange, fun inRange => inRange accepts⟩
    | existing _ _ inUse =>
      exact iff_of_true scored fun accepts => absurd (accepts.fresh _ List.mem_cons_self) inUse
  · have unread : ∀ params predicate, ¬ AssertReads { out with now := now } args params predicate :=
      fun params predicate reads => read ⟨params, predicate, reads.decoded, reads.parsed⟩
    have same : handler.after out ⟨now, preferredForm, req, .assert args⟩ = handler :=
      (toolAssert_unread unread handler).1
    rw [same]
    refine iff_of_true scored fun args' same params predicate reads => ?_
    cases same
    exact absurd ⟨params, predicate, reads⟩ read

/-- A call of the handler keeps the stored scores in range exactly when the confidence of an
assertion that is stored is in range. -/
theorem everyScored_after_iff (defaults : Parser.DefaultsInUnit F) {handler : MemHandler F}
    (reachable : Reachable handler.store) (scored : handler.store.EveryStored Node.Scored)
    (call : HandlerCall D) :
    (handler.after out call).store.EveryStored Node.Scored ↔ AssertScored out handler call := by
  by_cases asserts : ∃ args, call.tool = .assert args
  · obtain ⟨args, isAssert⟩ := asserts
    obtain ⟨now, preferredForm, req, tool⟩ := call
    obtain rfl : tool = .assert args := isAssert
    exact everyScored_assert_iff defaults scored now preferredForm req args
  · have performs := performs_after out (parsesAs_scored defaults) handler call
      fun args isAssert => absurd ⟨args, isAssert⟩ asserts
    exact iff_of_true (everyScored_of_performs reachable scored performs)
      fun args isAssert => absurd ⟨args, isAssert⟩ asserts

/-- From an empty store the scores of the stored nodes are in range throughout a run of the
handler exactly when every assertion that is stored gives a confidence in range, or none. -/
theorem scores_in_unit_iff (defaults : Parser.DefaultsInUnit F) {handler : MemHandler F}
    (reachable : Reachable handler.store) (isEmpty : ∀ id, handler.store.nodeAt id = none)
    (calls : List (HandlerCall D)) :
    (∀ early, early <+: calls → (handler.run out early).store.EveryStored Node.Scored) ↔
      Along out (AssertScored out) handler calls := by
  rw [along_iff_steps]
  have keeps : ∀ (handler : MemHandler F) (call : HandlerCall D), Reachable handler.store → True →
      Reachable (handler.after out call).store :=
    fun _ call reachable _ => reachable_after out reachable call
  have step : ∀ (handler : MemHandler F) (call : HandlerCall D), Reachable handler.store →
      handler.store.EveryStored Node.Scored → True →
      ((handler.after out call).store.EveryStored Node.Scored ↔ AssertScored out handler call) :=
    fun _ call reachable scored _ => everyScored_after_iff defaults reachable scored call
  refine Steps.throughout_iff_along keeps step calls reachable ?_
    (Steps.along_of_mem (fun _ _ _ => trivial) _)
  intro id node stored
  rw [isEmpty] at stored
  cases stored

end Assertions

/-! ### A confidence of seven -/

/-- The default scores of exact numbers. -/
theorem defaultsInUnit_rat : Parser.DefaultsInUnit Rat := by
  unfold Parser.DefaultsInUnit
  decide +kernel

theorem isEmpty_blankHandler : ∀ id, blankHandler.store.nodeAt id = none := (empty_data _ _ _).1

/-- An assertion with full confidence. -/
theorem scores_in_unit_iff_place :
    (∀ early, early <+: [assertPlace] →
        (blankHandler.run sampleWrites early).store.EveryStored Node.Scored) ↔
      Along sampleWrites (AssertScored sampleWrites) blankHandler [assertPlace] :=
  scores_in_unit_iff defaultsInUnit_rat reachable_blankHandler isEmpty_blankHandler _

/-- The place is asserted with a confidence of seven, which is stored. -/
theorem overconfident_place_stored :
    ¬ ∀ calls : List (HandlerCall Unit),
      (blankHandler.run sampleWrites calls).store.EveryStored Node.Scored := by
  intro every
  have stored : (blankHandler.run sampleWrites
      [sampleCall (.assert (placeArgs 7))]).store.nodeAt ⟨placeId⟩ =
        some (assertNode ⟨"", none, some 7, none⟩ placeId premise.predicate) := by
    decide +kernel
  have scored := every [sampleCall (.assert (placeArgs 7))] _ _ stored
  exact absurd scored (by decide +kernel)

end McpHandler

end Factum
