/-
This file is about two insertions of one identifier at once.

An insertion asks the backend whether its identifier is stored and then writes. These
are two calls of a store that the requests share, and no lock is held between them, so
the steps of another insertion can stand between the two. The steps are modelled as the
code performs them, and a schedule says whose step comes next. The two insertions behave
as one after the other under every schedule but those that begin with both checks and
let both calls write.
-/

import Factum.Runs
import Factum.Retraction
import Mathlib.Logic.Function.Basic

namespace Factum

open Stateful

variable {F : Type}

namespace FactumStore

/-! ### The two steps of an insertion -/

section Steps

variable {B : Type} [StorageBackend F B]

open StorageBackend

/-- The first step of an insertion: verify the node and look for a duplicate. -/
def checkInsert (node : Node F) : StoreM F B Unit := do
  if let some reason := (← get).rejection node then throw (.fail (.invalidNode reason))
  if (← callBackend (getNode node.id)).isSome then
    throw (.fail (.alreadyExists node.id.asStr))

/-- The second step of an insertion: write the node, log it, index it and notify. -/
def writeInsert (node : Node F) : StoreM F B Unit := do
  let ops := buildInsertOps (← get).registry node
  modify (·.log (.insert node))
  callBackend (batchWrite ops)
  modify (·.updateIndices node)
  modify (·.notifyInsert node)

/-- An insertion that is left alone is its two steps. -/
theorem insert_eq_steps (node : Node F) :
    (insert node : StoreM F B Unit) = (checkInsert node >>= fun _ => writeInsert node) := by
  funext store
  have begun : checkInsert node store =
      (do
        if let some reason := store.rejection node then throw (.fail (.invalidNode reason))
        if (← callBackend (getNode node.id)).isSome then
          throw (.fail (.alreadyExists node.id.asStr)) : StoreM F B Unit) store := rfl
  unfold insert
  rw [get_bind_run]
  cases rejected : store.rejection node with
  | some reason =>
    rw [rejected] at begun
    exact (bind_error begun).symm
  | none =>
    rw [rejected] at begun
    cases asked : callBackend (getNode node.id) store with
    | error error after =>
      exact (bind_error asked).trans (bind_error (begun.trans (bind_error asked))).symm
    | ok found after =>
      have checked := begun.trans (bind_ok asked)
      refine (bind_ok asked).trans ?_
      cases found with
      | some other => exact (bind_error checked).symm
      | none =>
        have passed : checkInsert node store = .ok () after := checked
        rw [bind_ok passed]
        rfl

end Steps

theorem checkInsert_of_accepts {store : MemStore F} {node : Node F}
    (accepts : store.Accepts [node]) : checkInsert node store = .ok () store := by
  unfold checkInsert
  rw [get_bind_run, accepts.verified node List.mem_cons_self]
  refine (bind_ok (callBackend_getNode store node.id)).trans ?_
  rw [accepts.fresh node List.mem_cons_self]
  rfl

theorem checkInsert_of_not_accepts {store : MemStore F} {node : Node F}
    (refused : ¬ store.Accepts [node]) : ∃ error, checkInsert node store = .error error store := by
  unfold checkInsert
  rw [get_bind_run]
  cases rejected : store.rejection node with
  | some reason => exact ⟨_, rfl⟩
  | none =>
    cases stored : store.nodeAt node.id with
    | some other =>
      refine ⟨.fail (.alreadyExists node.id.asStr), ?_⟩
      refine (bind_ok (callBackend_getNode store node.id)).trans ?_
      rw [stored]
      rfl
    | none => exact absurd ⟨by simpa using rejected, by simpa using stored, by simp⟩ refused

theorem writeInsert_run (store : MemStore F) (node : Node F) :
    writeInsert node store = .ok () (store.admitted [node]) := by
  unfold writeInsert
  rw [get_bind_run, modify_bind_run]
  rw [bind_ok (callBackend_batchWrite _ fun op => isInsertion_of_mem_buildInsertOps)]
  simp only [admitted, List.flatMap_cons, List.flatMap_nil, List.append_nil]
  rfl

/-! ### Two calls under a schedule -/

/-- The two calls. -/
inductive Caller where
  | first
  | second
deriving DecidableEq, Repr

/-- The call beside a call. -/
def Caller.other : Caller → Caller
  | .first => .second
  | .second => .first

theorem Caller.eq_or_eq_other (caller one : Caller) : one = caller ∨ one = caller.other := by
  cases caller <;> cases one <;> simp [other]

theorem Caller.other_ne (caller : Caller) : caller.other ≠ caller := by
  cases caller <;> decide

/-- Where a call stands: before its check, between its check and its write, or back with
an answer. -/
inductive Progress where
  | waiting
  | checked
  | returned (answer : Except (Stop StoreError) Unit)

/-- The shared store and where each call stands. -/
structure Race (F : Type) where
  store : MemStore F
  progress : Caller → Progress

namespace Race

/-- The race with a call at another stage, over another store. -/
def move (race : Race F) (caller : Caller) (store : MemStore F) (stage : Progress) : Race F :=
  ⟨store, Function.update race.progress caller stage⟩

@[simp] theorem store_move (race : Race F) (caller : Caller) (store : MemStore F)
    (stage : Progress) : (race.move caller store stage).store = store := rfl

@[simp] theorem progress_move_self (race : Race F) (caller : Caller) (store : MemStore F)
    (stage : Progress) : (race.move caller store stage).progress caller = stage := by
  simp [move]

theorem progress_move_of_ne (race : Race F) {caller one : Caller} (different : one ≠ caller)
    (store : MemStore F) (stage : Progress) :
    (race.move caller store stage).progress one = race.progress one := by
  simp [move, different]

/-- The call whose turn it is performs its next step. A call that is back takes none. -/
def step (nodes : Caller → Node F) (race : Race F) (caller : Caller) : Race F :=
  match race.progress caller with
  | .waiting =>
    match checkInsert (nodes caller) race.store with
    | .ok _ store => race.move caller store .checked
    | .error error store => race.move caller store (.returned (.error error))
  | .checked =>
    match writeInsert (nodes caller) race.store with
    | .ok value store => race.move caller store (.returned (.ok value))
    | .error error store => race.move caller store (.returned (.error error))
  | .returned _ => race

/-- Two calls that have not begun. -/
def start (store : MemStore F) : Race F := ⟨store, fun _ => .waiting⟩

/-- The steps of a schedule. -/
def run (nodes : Caller → Node F) (race : Race F) (schedule : List Caller) : Race F :=
  schedule.foldl (step nodes) race

/-- A call has returned `Ok`. -/
def Succeeded (race : Race F) (caller : Caller) : Prop :=
  race.progress caller = .returned (.ok ())

/-- At most one call has returned `Ok`, and the node of a call that did is the stored one. -/
structure Sound (nodes : Caller → Node F) (race : Race F) : Prop where
  atMostOne : ¬ (race.Succeeded .first ∧ race.Succeeded .second)
  kept : ∀ caller, race.Succeeded caller →
    race.store.nodeAt (nodes caller).id = some (nodes caller)

end Race

/-- A schedule that begins with both checks and lets both calls write. -/
def BothCheckFirst (schedule : List Caller) : Prop :=
  ∃ caller rest, schedule = caller :: caller.other :: rest ∧ caller ∈ rest ∧ caller.other ∈ rest

namespace Race

variable {nodes : Caller → Node F}

/-! ### What a step does -/

/-- What a step can do: pass the check, fail it, write, or nothing. -/
theorem step_cases (race : Race F) (caller : Caller) :
    race.progress caller = .waiting ∧ race.store.Accepts [nodes caller] ∧
      race.step nodes caller = race.move caller race.store .checked ∨
    race.progress caller = .waiting ∧ ¬ race.store.Accepts [nodes caller] ∧
      (∃ error, race.step nodes caller =
        race.move caller race.store (.returned (.error error))) ∨
    race.progress caller = .checked ∧ race.step nodes caller =
      race.move caller (race.store.admitted [nodes caller]) (.returned (.ok ())) ∨
    (∃ answer, race.progress caller = .returned answer) ∧ race.step nodes caller = race := by
  unfold step
  cases race.progress caller with
  | waiting =>
    by_cases accepts : race.store.Accepts [nodes caller]
    · exact .inl ⟨rfl, accepts, by simp only [checkInsert_of_accepts accepts]⟩
    · obtain ⟨error, failed⟩ := checkInsert_of_not_accepts accepts
      exact .inr (.inl ⟨rfl, accepts, error, by simp only [failed]⟩)
  | checked => exact .inr (.inr (.inl ⟨rfl, by simp only [writeInsert_run]⟩))
  | returned answer => exact .inr (.inr (.inr ⟨⟨answer, rfl⟩, rfl⟩))

/-- A step moves no call but its own. -/
theorem progress_step_of_ne (race : Race F) {caller one : Caller} (different : one ≠ caller) :
    (race.step nodes caller).progress one = race.progress one := by
  rcases race.step_cases caller with ⟨_, _, moved⟩ | ⟨_, _, error, moved⟩ | ⟨_, moved⟩ | ⟨_, moved⟩
  all_goals rw [moved]
  all_goals exact race.progress_move_of_ne different _ _

/-- What every step keeps holds after a schedule. -/
theorem run_keeps {property : Race F → Prop}
    (keeps : ∀ race caller, property race → property (race.step nodes caller))
    (schedule : List Caller) : ∀ race, property race → property (race.run nodes schedule) := by
  induction schedule with
  | nil => exact fun _ holds => holds
  | cons caller rest inductionHypothesis =>
    exact fun race holds => inductionHypothesis _ (keeps race caller holds)

/-- A call that is back stays back with its answer. -/
theorem step_keeps_returned {one : Caller} {answer : Except (Stop StoreError) Unit}
    (race : Race F) (caller : Caller) (returned : race.progress one = .returned answer) :
    (race.step nodes caller).progress one = .returned answer := by
  by_cases same : one = caller
  · subst same
    rcases race.step_cases one with ⟨stage, _⟩ | ⟨stage, _⟩ | ⟨stage, _⟩ | ⟨_, moved⟩
    · cases returned.symm.trans stage
    · cases returned.symm.trans stage
    · cases returned.symm.trans stage
    · rw [moved, returned]
  · rw [progress_step_of_ne race same, returned]

/-- When a call has returned `Ok`, the stored node is that of one that did. -/
def KeepsOne (nodes : Caller → Node F) (race : Race F) : Prop :=
  (∃ caller, race.Succeeded caller) → ∃ caller, race.Succeeded caller ∧
    race.store.nodeAt (nodes caller).id = some (nodes caller)

theorem keepsOne_step (race : Race F) (caller : Caller) (keeps : race.KeepsOne nodes) :
    (race.step nodes caller).KeepsOne nodes := by
  have unmoved : ∀ stage, stage ≠ .returned (.ok ()) → race.progress caller = .waiting →
      (race.move caller race.store stage).KeepsOne nodes := by
    rintro stage notOk waiting ⟨one, succeeded⟩
    have different : ∀ {one}, race.Succeeded one → one ≠ caller := by
      rintro one succeededOne rfl
      cases succeededOne.symm.trans waiting
    have before : race.Succeeded one := by
      by_cases same : one = caller
      · subst same
        exact absurd ((race.progress_move_self one _ stage).symm.trans succeeded) notOk
      · exact (race.progress_move_of_ne same _ stage).symm.trans succeeded
    obtain ⟨winner, won, stored⟩ := keeps ⟨one, before⟩
    exact ⟨winner, (race.progress_move_of_ne (different won) _ stage).trans won, stored⟩
  rcases race.step_cases caller with ⟨stage, _, moved⟩ | ⟨stage, _, error, moved⟩ |
    ⟨_, moved⟩ | ⟨_, moved⟩
  · rw [moved]
    exact unmoved _ (by simp) stage
  · rw [moved]
    exact unmoved _ (by simp) stage
  · rw [moved]
    refine fun _ => ⟨caller, race.progress_move_self caller _ _, ?_⟩
    rw [store_move, nodeAt_admitted _ (by simp)]
    simp
  · rwa [moved]

/-- A race is sound exactly when not both calls have returned `Ok`. -/
theorem sound_iff {race : Race F} (keeps : race.KeepsOne nodes) :
    race.Sound nodes ↔ ¬ ∀ caller, race.Succeeded caller := by
  constructor
  · exact fun sound both => sound.atMostOne ⟨both .first, both .second⟩
  · intro notBoth
    refine ⟨fun both => notBoth fun caller => ?_, fun caller succeeded => ?_⟩
    · cases caller with
      | first => exact both.1
      | second => exact both.2
    · obtain ⟨winner, won, stored⟩ := keeps ⟨caller, succeeded⟩
      rcases caller.eq_or_eq_other winner with rfl | rfl
      · exact stored
      · refine absurd (fun one => ?_) notBoth
        rcases caller.eq_or_eq_other one with rfl | rfl
        · exact succeeded
        · exact won

/-! ### Which schedules let both calls succeed -/

/-- A call that cannot succeed any more: it was refused, or its identifier is stored before
its check. -/
def Shut (nodes : Caller → Node F) (caller : Caller) (race : Race F) : Prop :=
  (∃ error, race.progress caller = .returned (.error error)) ∨
    race.progress caller = .waiting ∧ (race.store.nodeAt (nodes caller).id).isSome = true

theorem not_succeeded_of_shut {race : Race F} {caller : Caller} (shut : race.Shut nodes caller) :
    ¬ race.Succeeded caller := by
  intro succeeded
  rcases shut with ⟨error, returned⟩ | ⟨waiting, _⟩
  · cases returned.symm.trans succeeded
  · cases waiting.symm.trans succeeded

theorem isSome_nodeAt_admitted (store : MemStore F) (node : Node F) (id : NodeId)
    (stored : (store.nodeAt id).isSome = true) :
    ((store.admitted [node]).nodeAt id).isSome = true := by
  rw [nodeAt_admitted store (by simp), Option.isSome_or, stored, Bool.or_true]

theorem shut_step {one : Caller} (race : Race F) (caller : Caller) (shut : race.Shut nodes one) :
    (race.step nodes caller).Shut nodes one := by
  rcases shut with ⟨error, returned⟩ | ⟨waiting, stored⟩
  · exact .inl ⟨error, race.step_keeps_returned caller returned⟩
  · by_cases same : one = caller
    · subst same
      rcases race.step_cases one with ⟨_, accepts, _⟩ | ⟨_, _, error, moved⟩ | ⟨stage, _⟩ |
        ⟨⟨answer, stage⟩, _⟩
      · rw [accepts.fresh _ List.mem_cons_self] at stored
        cases stored
      · exact .inl ⟨error, by rw [moved, progress_move_self]⟩
      · cases waiting.symm.trans stage
      · cases waiting.symm.trans stage
    · refine .inr ⟨(race.progress_step_of_ne same).trans waiting, ?_⟩
      rcases race.step_cases caller with ⟨_, _, moved⟩ | ⟨_, _, error, moved⟩ | ⟨_, moved⟩ |
        ⟨_, moved⟩
      · rwa [moved]
      · rwa [moved]
      · rw [moved]
        exact isSome_nodeAt_admitted _ _ _ stored
      · rwa [moved]

/-- A call that has passed its check. -/
def Poised (race : Race F) (caller : Caller) : Prop :=
  race.progress caller = .checked ∨ race.Succeeded caller

/-- A call that has passed its check succeeds with its next step. -/
theorem succeeded_step {caller : Caller} (race : Race F) (poised : race.Poised caller) :
    (race.step nodes caller).Succeeded caller := by
  rcases poised with checked | succeeded
  · rcases race.step_cases caller with ⟨stage, _⟩ | ⟨stage, _⟩ | ⟨_, moved⟩ | ⟨⟨answer, stage⟩, _⟩
    · cases checked.symm.trans stage
    · cases checked.symm.trans stage
    · rw [moved]
      exact race.progress_move_self caller _ _
    · cases checked.symm.trans stage
  · exact race.step_keeps_returned caller succeeded

/-- A call that has passed its check succeeds exactly when the schedule gives it a step. -/
theorem succeeded_run_iff {caller : Caller} (schedule : List Caller) :
    ∀ race : Race F, race.progress caller = .checked →
      ((race.run nodes schedule).Succeeded caller ↔ caller ∈ schedule) := by
  induction schedule with
  | nil =>
    intro race checked
    refine iff_of_false (fun succeeded => ?_) (by simp)
    cases checked.symm.trans succeeded
  | cons next rest inductionHypothesis =>
    intro race checked
    by_cases same : caller = next
    · subst same
      refine iff_of_true ?_ List.mem_cons_self
      have succeeds : (race.step nodes caller).Succeeded caller :=
        race.succeeded_step (.inl checked)
      exact run_keeps (fun race other => race.step_keeps_returned other) rest _ succeeds
    · have unmoved : (race.step nodes next).progress caller = race.progress caller :=
        race.progress_step_of_ne same
      have kept := unmoved.trans checked
      rw [List.mem_cons, or_iff_right same]
      exact inductionHypothesis _ kept

/-- A call that is shut does not succeed, whatever the schedule. -/
theorem not_all_succeed {caller : Caller} {race : Race F} (shut : race.Shut nodes caller)
    (schedule : List Caller) : ¬ ∀ one, (race.run nodes schedule).Succeeded one :=
  fun both => not_succeeded_of_shut (run_keeps shut_step schedule race shut) (both caller)

theorem shut_of_refused (race : Race F) (caller : Caller) (error : Stop StoreError) :
    (race.move caller race.store (.returned (.error error))).Shut nodes caller :=
  .inl ⟨error, race.progress_move_self caller _ _⟩

/-- After the check of one call both succeed exactly when the check of the other comes next
and passes, and both are given a step to write in. -/
theorem all_succeed_after_check {race : Race F} {caller : Caller}
    (checked : race.progress caller = .checked) (waiting : race.progress caller.other = .waiting)
    (sameId : (nodes caller).id = (nodes caller.other).id) (schedule : List Caller) :
    (∀ one, (race.run nodes schedule).Succeeded one) ↔
      race.store.Accepts [nodes caller.other] ∧
        ∃ rest, schedule = caller.other :: rest ∧ caller ∈ rest ∧ caller.other ∈ rest := by
  rcases schedule with _ | ⟨next, rest⟩
  · refine iff_of_false (fun both => ?_) fun ⟨_, rest, impossible, _⟩ => ?_
    · cases waiting.symm.trans (both caller.other)
    · cases impossible
  show (∀ one, (run nodes (race.step nodes next) rest).Succeeded one) ↔ _
  rcases caller.eq_or_eq_other next with rfl | rfl
  · -- the write of the one comes before the check of the other
    have shut : (race.step nodes next).Shut nodes next.other := by
      refine .inr ⟨(race.progress_step_of_ne next.other_ne).trans waiting, ?_⟩
      rcases race.step_cases next with ⟨stage, _⟩ | ⟨stage, _⟩ | ⟨_, moved⟩ | ⟨⟨answer, stage⟩, _⟩
      · cases checked.symm.trans stage
      · cases checked.symm.trans stage
      · rw [moved, store_move, nodeAt_admitted _ (by simp)]
        simp [sameId]
      · cases checked.symm.trans stage
    refine iff_of_false (not_all_succeed shut rest) fun ⟨_, later, same, _⟩ => ?_
    exact next.other_ne (List.cons.inj same).1.symm
  · rcases race.step_cases caller.other with ⟨_, accepts, moved⟩ | ⟨_, refused, error, moved⟩ |
      ⟨stage, _⟩ | ⟨⟨answer, stage⟩, _⟩
    · have stillChecked : (race.step nodes caller.other).progress caller = .checked :=
        (race.progress_step_of_ne caller.other_ne.symm).trans checked
      have otherChecked : (race.step nodes caller.other).progress caller.other = .checked := by
        rw [moved, progress_move_self]
      constructor
      · exact fun both => ⟨accepts, rest, rfl, (succeeded_run_iff rest _ stillChecked).mp
          (both caller), (succeeded_run_iff rest _ otherChecked).mp (both caller.other)⟩
      · rintro ⟨_, later, same, hasOne, hasOther⟩ one
        obtain rfl := (List.cons.inj same).2
        rcases caller.eq_or_eq_other one with rfl | rfl
        · exact (succeeded_run_iff rest _ stillChecked).mpr hasOne
        · exact (succeeded_run_iff rest _ otherChecked).mpr hasOther
    · rw [moved]
      exact iff_of_false (not_all_succeed (race.shut_of_refused _ error) rest)
        fun both => refused both.1
    · cases waiting.symm.trans stage
    · cases waiting.symm.trans stage

/-- Both calls succeed exactly when both check before either writes, and pass. -/
theorem all_succeed_iff (store : MemStore F)
    (sameId : (nodes .first).id = (nodes .second).id) (schedule : List Caller) :
    (∀ caller, ((start store).run nodes schedule).Succeeded caller) ↔
      (∀ caller, store.Accepts [nodes caller]) ∧ BothCheckFirst schedule := by
  rcases schedule with _ | ⟨caller, schedule⟩
  · refine iff_of_false (fun both => ?_) fun ⟨_, one, rest, impossible, _⟩ => ?_
    · cases both .first
    · cases impossible
  show (∀ one, (run nodes ((start store).step nodes caller) schedule).Succeeded one) ↔ _
  rcases (start store).step_cases caller with ⟨_, accepts, moved⟩ | ⟨_, refused, error, moved⟩ |
    ⟨stage, _⟩ | ⟨⟨answer, stage⟩, _⟩
  · have waiting : ((start store).move caller store .checked).progress caller.other = .waiting :=
      progress_move_of_ne _ caller.other_ne _ _
    have sameIds : (nodes caller).id = (nodes caller.other).id := by
      cases caller with
      | first => exact sameId
      | second => exact sameId.symm
    rw [moved]
    refine (all_succeed_after_check (progress_move_self _ _ _ _) waiting sameIds _).trans ?_
    constructor
    · rintro ⟨otherAccepts, rest, rfl, hasOne, hasOther⟩
      refine ⟨fun one => ?_, caller, rest, rfl, hasOne, hasOther⟩
      rcases caller.eq_or_eq_other one with rfl | rfl
      · exact accepts
      · exact otherAccepts
    · rintro ⟨both, one, rest, same, hasOne, hasOther⟩
      obtain ⟨rfl, rfl⟩ := List.cons.inj same
      exact ⟨both caller.other, rest, rfl, hasOne, hasOther⟩
  · rw [moved]
    exact iff_of_false (not_all_succeed ((start store).shut_of_refused _ error) schedule)
      fun both => refused (both.1 caller)
  · cases stage
  · cases stage

end Race

/-! ### When two insertions of one identifier are safe -/

/-- Under a schedule at most one of two insertions of one identifier succeeds and no node of
one that did is overwritten, at every point, exactly when the schedule does not begin with two
checks that pass and let both write. -/
theorem overlapping_inserts_sound_iff (store : MemStore F) (nodes : Caller → Node F)
    (sameId : (nodes .first).id = (nodes .second).id) (schedule : List Caller) :
    (∀ early, early <+: schedule → ((Race.start store).run nodes early).Sound nodes) ↔
      ¬ ((∀ caller, store.rejection (nodes caller) = none) ∧
        store.nodeAt (nodes .first).id = none ∧ BothCheckFirst schedule) := by
  have accepted : (∀ caller, store.Accepts [nodes caller]) ↔
      (∀ caller, store.rejection (nodes caller) = none) ∧
        store.nodeAt (nodes .first).id = none := by
    constructor
    · exact fun both => ⟨fun caller => (both caller).verified _ List.mem_cons_self,
        (both .first).fresh _ List.mem_cons_self⟩
    · rintro ⟨verified, fresh⟩ caller
      refine ⟨by simpa using verified caller, ?_, by simp⟩
      cases caller with
      | first => simpa using fresh
      | second => simpa [sameId] using fresh
  rw [← and_assoc, ← accepted, ← Race.all_succeed_iff store sameId]
  have sound : ∀ early, ((Race.start store).run nodes early).Sound nodes ↔
      ¬ ∀ caller, ((Race.start store).run nodes early).Succeeded caller := by
    intro early
    refine Race.sound_iff (Race.run_keeps Race.keepsOne_step early _ ?_)
    rintro ⟨caller, succeeded⟩
    cases succeeded
  constructor
  · exact fun throughout => (sound schedule).mp (throughout schedule (List.prefix_refl schedule))
  · rintro notBoth early ⟨late, rfl⟩
    refine (sound early).mpr fun both => notBoth fun caller => ?_
    rw [Race.run, List.foldl_append]
    exact Race.run_keeps (fun race one => race.step_keeps_returned one) late _ (both caller)

/-- Two nodes of one identifier with different facts. -/
def contenders : Caller → Node Rat
  | .first => premise
  | .second => { premise with predicate := ⟨.name "part-of", [.ent ⟨"A"⟩, .ent ⟨"C"⟩], []⟩ }

/-- One call after the other. -/
theorem one_after_the_other :
    ((Race.start blank).run contenders [.first, .first, .second, .second]).Sound contenders :=
  (overlapping_inserts_sound_iff blank contenders rfl _).mpr
    (fun ⟨_, _, caller, rest, same, _⟩ => by cases caller <;> simp [Caller.other] at same)
    _ (List.prefix_refl _)

/-- When both checks come first, both calls return `Ok` and the first node is lost. -/
theorem both_checks_first :
    ¬ ∀ (store : MemStore Rat) (nodes : Caller → Node Rat),
      (nodes .first).id = (nodes .second).id → ∀ schedule early, early <+: schedule →
        ((Race.start store).run nodes early).Sound nodes := by
  intro every
  have sound := every blank contenders rfl [.first, .second, .first, .second] _ (List.prefix_refl _)
  have fresh : ∀ id, blank.nodeAt id = none := (empty_data _ _ _).1
  have sameId : (contenders .first).id = (contenders .second).id := rfl
  have both := (Race.all_succeed_iff blank sameId
    [.first, .second, .first, .second]).mpr
    ⟨fun caller => ⟨fun node member => ?_, fun node member => fresh _, by simp⟩,
      .first, [.first, .second], rfl, by decide, by decide⟩
  · exact sound.atMostOne ⟨both .first, both .second⟩
  · rw [blank, MemStore.empty_eq]
    rfl

end FactumStore

end Factum
