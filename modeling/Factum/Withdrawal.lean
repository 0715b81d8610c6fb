/-
This file is about what a retraction that is not cut does to the node map, and
about retractions in sequence.

Such a retraction withdraws a set that depends on the node map and the reverse
dependencies only: the full cascade of a live root. The cascade of a later
retraction stops at nodes that were withdrawn before, but whatever lies behind
those was withdrawn with them, so the two together withdraw the union of the two
cascades, in whatever order they run.
-/

import Factum.History

namespace Factum

open Stateful

variable {F : Type}

namespace FactumStore

/-- A node is stored and not retracted. -/
def Live (store : MemStore F) (id : NodeId) : Prop :=
  ∃ node, store.nodeAt id = some node ∧ node.status ≠ .retracted

/-- What a retraction that is not cut withdraws. -/
def withdrawn (store : MemStore F) (root : NodeId) : Set NodeId :=
  {id | store.Live root ∧ id ∈ store.fullCascade root}

/-- One store is the other with a set of nodes retracted. -/
structure Withdraws (store later : MemStore F) (gone : Set NodeId) : Prop where
  inside : ∀ id ∈ gone, later.nodeAt id = (store.nodeAt id).map Node.retract
  outside : ∀ id ∉ gone, later.nodeAt id = store.nodeAt id
  depsRev : later.depsRev = store.depsRev

/-- A retraction that finds a live root and does not report a cut was not cut. -/
theorem complete_of_not_truncates {store : MemStore F} (keyed : store.Keyed) {id : NodeId}
    {maxNodes : Nat} (retracts : store.Retracts id maxNodes)
    (complete : ¬ store.Truncates (.retractWithLimit id maxNodes)) :
    (store.cascadeTrace id maxNodes).truncated = false := by
  by_contra cut
  obtain ⟨depth, answered⟩ := outcome_retract_of_retracts keyed retracts
  exact complete ⟨_, answered, by simpa [resultOf] using cut⟩

/-- Without a budget every retraction reports a cut. -/
theorem truncates_zero (store : MemStore F) (id : NodeId) :
    store.Truncates (.retractWithLimit id 0) := by
  refine ⟨⟨[], true, 0⟩, (answer_bind_pure _ _ _).trans ?_, rfl⟩
  rw [answer_ok (retractWithLimit_zero store id)]
  rfl

/-- A retraction that is not cut withdraws its full cascade. -/
theorem withdraws_after {store : MemStore F} (keyed : store.Keyed) {id : NodeId}
    {maxNodes : Nat} (complete : ¬ store.Truncates (.retractWithLimit id maxNodes)) :
    Withdraws store (store.after (.retractWithLimit id maxNodes)) (store.withdrawn id) := by
  by_cases retracts : store.Retracts id maxNodes
  · have marked := store.mem_cascadeTrace_iff retracts.positive
      (complete_of_not_truncates keyed retracts complete)
    have nodeAtAfter := nodeAt_retractAll (store.cascadeTrace id maxNodes).marked keyed
    rw [after_retract_of_retracts keyed retracts]
    constructor
    · rintro other ⟨_, member⟩
      exact (nodeAtAfter other).trans (if_pos ((marked other).mpr member))
    · intro other outside
      have unmarked : other ∉ (store.cascadeTrace id maxNodes).marked :=
        fun inside => outside ⟨retracts.live, (marked other).mp inside⟩
      exact (nodeAtAfter other).trans (if_neg unmarked)
    · exact (retractAll_same _ store).1
  · have same := sameData_after_retract retracts
    have notLive : ¬ store.Live id := by
      intro live
      have noBudget : maxNodes = 0 := by
        by_contra positive
        exact retracts ⟨Nat.pos_of_ne_zero positive, live⟩
      exact complete (noBudget ▸ truncates_zero store id)
    exact ⟨fun other inside => absurd inside.1 notLive, fun other _ => same.nodeAt other,
      same.depsRev⟩

theorem Withdraws.keyed {store later : MemStore F} {gone : Set NodeId}
    (withdraws : Withdraws store later gone) (keyed : store.Keyed) : later.Keyed := by
  intro id node stored
  by_cases inside : id ∈ gone
  · rw [withdraws.inside id inside] at stored
    obtain ⟨before, storedBefore, rfl⟩ := Option.map_eq_some_iff.mp stored
    exact keyed id before storedBefore
  · rw [withdraws.outside id inside] at stored
    exact keyed id node stored

/-- After a withdrawal the nodes outside it are live and supported as before. -/
theorem Withdraws.live_iff {store later : MemStore F} {gone : Set NodeId}
    (withdraws : Withdraws store later gone) (id : NodeId) :
    later.Live id ↔ store.Live id ∧ id ∉ gone := by
  unfold Live
  by_cases inside : id ∈ gone
  · rw [withdraws.inside id inside]
    cases store.nodeAt id <;> simp [inside, Node.retract]
  · rw [withdraws.outside id inside]
    simp [inside]

theorem Withdraws.isSupported_iff {store later : MemStore F} {gone : Set NodeId}
    (withdraws : Withdraws store later gone) (id : NodeId) :
    later.isSupported id = true ↔ store.isSupported id = true ∧ id ∉ gone := by
  unfold FactumStore.isSupported
  by_cases inside : id ∈ gone
  · rw [withdraws.inside id inside]
    cases store.nodeAt id <;> simp [inside, Node.retract, Node.isActiveDerived]
  · rw [withdraws.outside id inside]
    simp [inside]

/-- A withdrawal and a full cascade after it withdraw what both withdraw from the store
before. -/
theorem mem_union_withdrawn_iff {store later : MemStore F} {first : NodeId}
    (withdraws : Withdraws store later (store.withdrawn first)) (second id : NodeId) :
    id ∈ store.withdrawn first ∨ id ∈ later.withdrawn second ↔
      id ∈ store.withdrawn first ∨ id ∈ store.withdrawn second := by
  have sameDependents : later.dependents = store.dependents := by
    funext dep
    rw [FactumStore.dependents, withdraws.depsRev]
    rfl
  constructor
  · rintro (inFirst | ⟨live, reached⟩)
    · exact .inl inFirst
    · refine .inr ⟨((withdraws.live_iff second).mp live).1, ?_⟩
      refine Marking.closure_mono _ _ (fun x y edge => ?_) second reached
      exact ⟨sameDependents ▸ edge.1, ((withdraws.isSupported_iff y).mp edge.2).1⟩
  · rintro (inFirst | ⟨live, reached⟩)
    · exact .inl inFirst
    · by_cases inFirst : id ∈ store.withdrawn first
      · exact .inl inFirst
      · -- no edge leaves the first cascade, so the path to the node avoids it
        have closed : ∀ x ∈ store.withdrawn first, ∀ y,
            Marking.Edge store.dependents store.isSupported x y →
              y ∈ store.withdrawn first :=
          fun x inside y edge => ⟨inside.1, inside.2.tail edge⟩
        have rootOutside : second ∉ store.withdrawn first :=
          fun inside => inFirst ⟨inside.1, inside.2.trans reached⟩
        refine .inr ⟨(withdraws.live_iff second).mpr ⟨live, rootOutside⟩, ?_⟩
        have avoiding := Marking.closure_avoiding _ _ closed
          (fun y outside supported => (withdraws.isSupported_iff y).mpr ⟨supported, outside⟩)
          reached inFirst
        rw [← sameDependents] at avoiding
        exact avoiding

/-- Two withdrawals in sequence. -/
theorem Withdraws.nodeAt_trans {store between later : MemStore F} {first second : Set NodeId}
    (left : Withdraws store between first) (right : Withdraws between later second)
    (id : NodeId) :
    (id ∈ first ∨ id ∈ second → later.nodeAt id = (store.nodeAt id).map Node.retract) ∧
      (¬ (id ∈ first ∨ id ∈ second) → later.nodeAt id = store.nodeAt id) := by
  have twice : ∀ node : Node F, node.retract.retract = node.retract := fun _ => rfl
  by_cases inFirst : id ∈ first
  · refine ⟨fun _ => ?_, fun outside => absurd (.inl inFirst) outside⟩
    by_cases inSecond : id ∈ second
    · rw [right.inside id inSecond, left.inside id inFirst, Option.map_map]
      rfl
    · rw [right.outside id inSecond, left.inside id inFirst]
  · by_cases inSecond : id ∈ second
    · refine ⟨fun _ => ?_, fun outside => absurd (.inr inSecond) outside⟩
      rw [right.inside id inSecond, left.outside id inFirst]
    · refine ⟨fun inside => ?_, fun _ => ?_⟩
      · exact absurd inside (not_or.mpr ⟨inFirst, inSecond⟩)
      · rw [right.outside id inSecond, left.outside id inFirst]

/-- The order of two retractions that are not cut does not matter for the node map. -/
theorem retractions_commute {store : MemStore F} (reachable : Reachable store) {a b : NodeId}
    {limitA limitB limitA' limitB' : Nat}
    (completeA : ¬ store.Truncates (.retractWithLimit a limitA))
    (completeB : ¬ (store.after (.retractWithLimit a limitA)).Truncates
      (.retractWithLimit b limitB))
    (completeB' : ¬ store.Truncates (.retractWithLimit b limitB'))
    (completeA' : ¬ (store.after (.retractWithLimit b limitB')).Truncates
      (.retractWithLimit a limitA')) (id : NodeId) :
    (store.run [.retractWithLimit a limitA, .retractWithLimit b limitB]).nodeAt id =
      (store.run [.retractWithLimit b limitB', .retractWithLimit a limitA']).nodeAt id := by
  have keyed := reachable.consistent.keyed
  have firstA := withdraws_after keyed completeA
  have thenB := withdraws_after (firstA.keyed keyed) completeB
  have firstB := withdraws_after keyed completeB'
  have thenA := withdraws_after (firstB.keyed keyed) completeA'
  have orderAB := firstA.nodeAt_trans thenB id
  have orderBA := firstB.nodeAt_trans thenA id
  rw [mem_union_withdrawn_iff firstA] at orderAB
  rw [mem_union_withdrawn_iff firstB, or_comm] at orderBA
  show ((store.after _).after _).nodeAt id = ((store.after _).after _).nodeAt id
  by_cases gone : id ∈ store.withdrawn a ∨ id ∈ store.withdrawn b
  · rw [orderAB.1 gone, orderBA.1 gone]
  · rw [orderAB.2 gone, orderBA.2 gone]

/-- A premise and its conclusion may be retracted in either order. -/
theorem retractions_commute_premise :
    (supportedStore.run [.retractWithLimit ⟨"n1"⟩ 10, .retractWithLimit ⟨"n2"⟩ 10]).nodeAt =
      (supportedStore.run [.retractWithLimit ⟨"n2"⟩ 10, .retractWithLimit ⟨"n1"⟩ 10]).nodeAt := by
  funext id
  refine retractions_commute reachable_supportedStore ?_ ?_ ?_ ?_ id
  · exact not_truncates_of_outcome ⟨[⟨"n1"⟩, ⟨"n2"⟩], false, 1⟩ (by decide) rfl
  · exact not_truncates_of_outcome ⟨[], false, 0⟩ (by decide) rfl
  · exact not_truncates_of_outcome ⟨[⟨"n2"⟩], false, 0⟩ (by decide) rfl
  · exact not_truncates_of_outcome ⟨[⟨"n1"⟩], false, 0⟩ (by decide) rfl

end FactumStore

end Factum
