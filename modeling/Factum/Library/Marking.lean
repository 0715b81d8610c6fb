/-
This file is about depth-first marking with a budget.

A traversal starts at a root, marks it, and follows the successors of what it
marks into every element that is eligible and not marked yet. It marks at most
`limit` elements: when it meets one more, it gives up and says so. The graph is
arbitrary: cycles, shared successors and self-loops are all allowed, and the
traversal sees it only through a list of successors for each element.

The content is that the marked list is exact. It holds each element once, all of
them reachable; it is everything reachable unless the traversal says that it gave
up; and it gives up exactly when more than `limit` elements are reachable.
-/

import Mathlib.Data.List.Nodup
import Mathlib.Data.Set.Card
import Mathlib.Logic.Relation

namespace Marking

variable {α : Type}

/-- The marked elements, in the order of their marking, and whether the budget ran out. -/
structure Trace (α : Type) where
  marked : List α
  truncated : Bool

/-- Nothing marked yet. -/
def Trace.empty : Trace α := ⟨[], false⟩

/-- Mark one more element. -/
def Trace.mark (trace : Trace α) (x : α) : Trace α :=
  { trace with marked := trace.marked ++ [x] }

/-- Give up. -/
def Trace.truncate (trace : Trace α) : Trace α := { trace with truncated := true }

@[simp] theorem Trace.mark_marked (trace : Trace α) (x : α) :
    (trace.mark x).marked = trace.marked ++ [x] := rfl

@[simp] theorem Trace.mark_truncated (trace : Trace α) (x : α) :
    (trace.mark x).truncated = trace.truncated := rfl

@[simp] theorem Trace.truncate_marked (trace : Trace α) : trace.truncate.marked = trace.marked :=
  rfl

@[simp] theorem Trace.truncate_truncated (trace : Trace α) : trace.truncate.truncated = true :=
  rfl

section Traversal

variable [DecidableEq α] (succ : α → List α) (eligible : α → Bool) (limit : Nat)

/-- Visit the eligible unmarked elements of a list in turn. -/
def visitEach (visit : α → Trace α → Trace α) : List α → Trace α → Trace α
  | [], trace => trace
  | y :: rest, trace =>
    if eligible y && y ∉ trace.marked then
      if limit ≤ trace.marked.length then trace.truncate
      else visitEach visit rest (visit y trace)
    else visitEach visit rest trace

/-- Mark an element and visit its successors. Each level marks an element, so as much fuel
as there is budget left is enough. -/
def visit : Nat → α → Trace α → Trace α
  | 0, _, trace => trace
  | fuel + 1, x, trace =>
    visitEach eligible limit (visit fuel) (succ x) (trace.mark x)

end Traversal

/-! ### What a run of the traversal guarantees -/

section Guarantees

variable (succ : α → List α) (eligible : α → Bool) (limit : Nat)

/-- The edges that the traversal follows. -/
def Edge (x y : α) : Prop := y ∈ succ x ∧ eligible y = true

/-- What can be reached from some element with the given property. -/
def ReachableFrom (start : α → Prop) (y : α) : Prop :=
  ∃ x, start x ∧ Relation.ReflTransGen (Edge succ eligible) x y

/-- The guarantee of a run that visits all the elements with the property `start`. -/
structure Run (start : α → Prop) (before after : Trace α) : Prop where
  grows : before.marked <+: after.marked
  nodup : after.marked.Nodup
  bounded : after.marked.length ≤ limit
  sticky : before.truncated = true → after.truncated = true
  reachable : ∀ y ∈ after.marked, y ∈ before.marked ∨ ReachableFrom succ eligible start y
  cut : after.truncated = true → before.truncated = true ∨
    after.marked.length = limit ∧
      ∃ y, ReachableFrom succ eligible start y ∧ y ∉ after.marked
  visited : after.truncated = false → ∀ x, start x → x ∈ after.marked
  closed : after.truncated = false → ∀ x ∈ after.marked, x ∉ before.marked →
    ∀ y, Edge succ eligible x y → y ∈ after.marked

variable {succ eligible limit}

theorem ReachableFrom.mono {start start' : α → Prop} (weaker : ∀ x, start x → start' x) {y : α}
    (reachable : ReachableFrom succ eligible start y) :
    ReachableFrom succ eligible start' y := by
  obtain ⟨x, isStart, path⟩ := reachable
  exact ⟨x, weaker x isStart, path⟩

/-- A run that has nothing to visit changes nothing. -/
theorem Run.refl {start : α → Prop} {trace : Trace α} (nodup : trace.marked.Nodup)
    (bounded : trace.marked.length ≤ limit) (done : ∀ x, start x → x ∈ trace.marked) :
    Run succ eligible limit start trace trace where
  grows := List.prefix_refl _
  nodup := nodup
  bounded := bounded
  sticky := id
  reachable := fun _ member => .inl member
  cut := .inl
  visited := fun _ => done
  closed := fun _ _ member fresh => absurd member fresh

/-- Two runs in sequence visit what either visits. -/
theorem Run.trans {first second : α → Prop} {before between after : Trace α}
    (left : Run succ eligible limit first before between)
    (right : Run succ eligible limit second between after) :
    Run succ eligible limit (fun x => first x ∨ second x) before after where
  grows := left.grows.trans right.grows
  nodup := right.nodup
  bounded := right.bounded
  sticky := fun truncated => right.sticky (left.sticky truncated)
  reachable := by
    intro y member
    rcases right.reachable y member with old | new
    · rcases left.reachable y old with older | newer
      · exact .inl older
      · exact .inr (newer.mono fun _ => .inl)
    · exact .inr (new.mono fun _ => .inr)
  cut := by
    intro truncated
    rcases right.cut truncated with earlier | ⟨full, y, path, fresh⟩
    · rcases left.cut earlier with earliest | ⟨full, y, path, fresh⟩
      · exact .inl earliest
      · -- the budget was spent in the first run, so the second marked nothing
        have same : between.marked = after.marked :=
          right.grows.eq_of_length_le (full ▸ right.bounded)
        exact .inr ⟨same ▸ full, y, path.mono fun _ => .inl, same ▸ fresh⟩
    · exact .inr ⟨full, y, path.mono fun _ => .inr, fresh⟩
  visited := by
    intro complete x isStart
    have completeFirst : between.truncated = false := by
      by_contra truncated
      rw [right.sticky (by simpa using truncated)] at complete
      exact Bool.noConfusion complete
    rcases isStart with isFirst | isSecond
    · exact right.grows.subset (left.visited completeFirst x isFirst)
    · exact right.visited complete x isSecond
  closed := by
    intro complete x member fresh y edge
    have completeFirst : between.truncated = false := by
      by_contra truncated
      rw [right.sticky (by simpa using truncated)] at complete
      exact Bool.noConfusion complete
    by_cases early : x ∈ between.marked
    · exact right.grows.subset (left.closed completeFirst x early fresh y edge)
    · exact right.closed complete x member early y edge

/-- A run may be read with fewer elements to visit, if it can still reach what it marked. -/
theorem Run.congr {start start' : α → Prop} {before after : Trace α}
    (run : Run succ eligible limit start before after) (same : ∀ x, start x ↔ start' x) :
    Run succ eligible limit start' before after := by
  rwa [funext fun x => propext (same x)] at run

/-- Marking an element and then visiting its successors visits the element. -/
theorem Run.mark {x : α} {before after : Trace α} (fresh : x ∉ before.marked)
    (run : Run succ eligible limit (Edge succ eligible x) (before.mark x) after) :
    Run succ eligible limit (· = x) before after where
  grows := (List.prefix_append _ _).trans run.grows
  nodup := run.nodup
  bounded := run.bounded
  sticky := run.sticky
  reachable := by
    intro y member
    rcases run.reachable y member with old | ⟨z, edge, path⟩
    · rcases List.mem_append.mp old with older | new
      · exact .inl older
      · exact .inr ⟨x, rfl, List.mem_singleton.mp new ▸ .refl⟩
    · exact .inr ⟨x, rfl, .head edge path⟩
  cut := by
    intro truncated
    rcases run.cut truncated with earlier | ⟨full, y, ⟨z, edge, path⟩, unmarked⟩
    · exact .inl earlier
    · exact .inr ⟨full, y, ⟨x, rfl, .head edge path⟩, unmarked⟩
  visited := by
    rintro _ _ rfl
    exact run.grows.subset (by simp)
  closed := by
    intro complete z member unmarked y edge
    by_cases isRoot : z = x
    · exact run.visited complete y (isRoot ▸ edge)
    · exact run.closed complete z member (by simp [unmarked, isRoot]) y edge

end Guarantees

/-! ### The traversal keeps the guarantee -/

section Correctness

variable [DecidableEq α] {succ : α → List α} {eligible : α → Bool} {limit : Nat}

/-- Visiting a list keeps the guarantee when visiting one element does. -/
theorem run_visitEach {visitOne : α → Trace α → Trace α} (least : Nat)
    (each : ∀ x trace, x ∉ trace.marked → trace.marked.Nodup → trace.marked.length < limit →
      least ≤ trace.marked.length → Run succ eligible limit (· = x) trace (visitOne x trace)) :
    ∀ (ys : List α) (trace : Trace α), trace.marked.Nodup → trace.marked.length ≤ limit →
      least ≤ trace.marked.length →
      Run succ eligible limit (fun y => y ∈ ys ∧ eligible y = true) trace
        (visitEach eligible limit visitOne ys trace) := by
  intro ys
  induction ys with
  | nil =>
    intro trace nodup bounded _
    exact Run.refl nodup bounded (by simp)
  | cons y rest inductionHypothesis =>
    intro trace nodup bounded enough
    rw [visitEach]
    by_cases wanted : eligible y = true ∧ y ∉ trace.marked
    · rw [if_pos (by simpa using wanted)]
      by_cases full : limit ≤ trace.marked.length
      · rw [if_pos full]
        have reached : ReachableFrom succ eligible
            (fun z => z ∈ y :: rest ∧ eligible z = true) y :=
          ⟨y, ⟨List.mem_cons_self, wanted.1⟩, .refl⟩
        exact {
          grows := List.prefix_refl _
          nodup := nodup
          bounded := bounded
          sticky := fun _ => rfl
          reachable := fun _ member => .inl member
          cut := fun _ => .inr ⟨le_antisymm bounded full, y, reached, wanted.2⟩
          visited := by simp
          closed := by simp }
      · rw [if_neg full]
        have first := each y trace wanted.2 nodup (by omega) enough
        have second := inductionHypothesis (visitOne y trace) first.nodup first.bounded
          (enough.trans first.grows.length_le)
        refine (first.trans second).congr fun z => ?_
        constructor
        · rintro (rfl | ⟨member, good⟩)
          · exact ⟨List.mem_cons_self, wanted.1⟩
          · exact ⟨List.mem_cons_of_mem _ member, good⟩
        · rintro ⟨member, good⟩
          rcases List.mem_cons.mp member with rfl | later
          · exact .inl rfl
          · exact .inr ⟨later, good⟩
    · rw [if_neg (by simpa using wanted)]
      have skip : Run succ eligible limit (fun z => z = y ∧ eligible z = true) trace trace := by
        refine Run.refl nodup bounded ?_
        rintro _ ⟨rfl, good⟩
        by_contra unmarked
        exact wanted ⟨good, unmarked⟩
      refine (skip.trans (inductionHypothesis trace nodup bounded enough)).congr fun z => ?_
      rw [List.mem_cons]
      tauto

/-- Visiting an element that is not marked, with budget left, keeps the guarantee. -/
theorem run_visit : ∀ (fuel : Nat) (x : α) (trace : Trace α), x ∉ trace.marked →
    trace.marked.Nodup → trace.marked.length < limit → limit ≤ fuel + trace.marked.length →
    Run succ eligible limit (· = x) trace (visit succ eligible limit fuel x trace) := by
  intro fuel
  induction fuel with
  | zero =>
    intro x trace _ _ room enough
    omega
  | succ fuel inductionHypothesis =>
    intro x trace fresh nodup room enough
    have markedNodup : (trace.mark x).marked.Nodup := by
      rw [Trace.mark_marked, List.nodup_append]
      refine ⟨nodup, List.nodup_singleton x, ?_⟩
      intro y member z isX same
      rw [List.mem_singleton] at isX
      exact fresh (isX ▸ same ▸ member)
    have markedLength : (trace.mark x).marked.length = trace.marked.length + 1 := by simp
    rw [visit]
    refine Run.mark fresh ?_
    exact run_visitEach (limit - fuel)
      (fun y t unmarked distinct space least =>
        inductionHypothesis y t unmarked distinct space (by omega))
      (succ x) (trace.mark x) markedNodup (by omega) (by omega)

theorem visitEach_grows {visitOne : α → Trace α → Trace α}
    (each : ∀ x trace, trace.marked <+: (visitOne x trace).marked) :
    ∀ (ys : List α) (trace : Trace α),
      trace.marked <+: (visitEach eligible limit visitOne ys trace).marked := by
  intro ys
  induction ys with
  | nil => exact fun _ => List.prefix_refl _
  | cons y rest inductionHypothesis =>
    intro trace
    rw [visitEach]
    split_ifs
    · exact List.prefix_refl _
    · exact (each y trace).trans (inductionHypothesis _)
    · exact inductionHypothesis _

theorem visit_grows : ∀ (fuel : Nat) (x : α) (trace : Trace α),
    trace.marked <+: (visit succ eligible limit fuel x trace).marked := by
  intro fuel
  induction fuel with
  | zero => exact fun _ _ => List.prefix_refl _
  | succ fuel inductionHypothesis =>
    intro x trace
    have marked : trace.marked <+: (trace.mark x).marked := List.prefix_append _ _
    exact marked.trans (visitEach_grows inductionHypothesis (succ x) (trace.mark x))

/-! ### The traversal from an empty trace -/

section Rooted

variable (succ eligible)

/-- Everything reachable from a root. -/
def closure (root : α) : Set α := {y | Relation.ReflTransGen (Edge succ eligible) root y}

omit [DecidableEq α] in
/-- With fewer edges less is reachable. -/
theorem closure_mono {eligible' : α → Bool} {succ' : α → List α}
    (fewer : ∀ x y, Edge succ' eligible' x y → Edge succ eligible x y) (root : α) :
    closure succ' eligible' root ⊆ closure succ eligible root :=
  fun _ path => Relation.ReflTransGen.mono fewer _ _ path

omit [DecidableEq α] in
/-- What is reachable outside a set is reached over an edge that leaves the set. -/
theorem exists_edge_out (inside : Set α) {root y : α} (path : y ∈ closure succ eligible root)
    (start : root ∈ inside) (outside : y ∉ inside) :
    ∃ x ∈ inside, ∃ z ∉ inside, Edge succ eligible x z := by
  induction path with
  | refl => exact absurd start outside
  | @tail x z _ edge inductionHypothesis =>
    by_cases before : x ∈ inside
    · exact ⟨x, before, z, outside, edge⟩
    · exact inductionHypothesis before

omit [DecidableEq α] in
/-- What is reachable outside a set that no edge leaves is reachable without entering it. -/
theorem closure_avoiding {eligible' : α → Bool} {avoided : Set α}
    (closed : ∀ x ∈ avoided, ∀ y, Edge succ eligible x y → y ∈ avoided)
    (kept : ∀ y, y ∉ avoided → eligible y = true → eligible' y = true) {root y : α}
    (path : y ∈ closure succ eligible root) (outside : y ∉ avoided) :
    y ∈ closure succ eligible' root := by
  induction path with
  | refl => exact .refl
  | @tail x y path edge inductionHypothesis =>
    have before : x ∉ avoided := fun inside => outside (closed x inside y edge)
    exact .tail (inductionHypothesis before) ⟨edge.1, kept y outside edge.2⟩

/-- The whole traversal from a root. -/
theorem run_root {fuel : Nat} (root : α) (positive : 0 < limit) (enough : limit ≤ fuel) :
    Run succ eligible limit (· = root) .empty (visit succ eligible limit fuel root .empty) :=
  run_visit fuel root .empty (by simp [Trace.empty]) (by simp [Trace.empty]) positive enough

/-- The root is marked first. -/
theorem head_visit (fuel : Nat) (root : α) :
    (visit succ eligible limit (fuel + 1) root .empty).marked.head? = some root := by
  have grown : [root] <+: (visit succ eligible limit (fuel + 1) root .empty).marked :=
    visitEach_grows (visit_grows fuel) (succ root) (Trace.empty.mark root)
  obtain ⟨rest, whole⟩ := grown
  rw [← whole]
  rfl

theorem visit_subset {fuel : Nat} (root : α) (positive : 0 < limit) (enough : limit ≤ fuel) :
    ∀ y ∈ (visit succ eligible limit fuel root .empty).marked, y ∈ closure succ eligible root := by
  intro y member
  rcases (run_root succ eligible root positive enough).reachable y member with
    old | ⟨x, isRoot, path⟩
  · exact absurd old (by simp [Trace.empty])
  · exact isRoot ▸ path

/-- A traversal that did not give up marked everything reachable. -/
theorem closure_subset_visit {fuel : Nat} (root : α) (positive : 0 < limit)
    (enough : limit ≤ fuel)
    (complete : (visit succ eligible limit fuel root .empty).truncated = false) :
    ∀ y ∈ closure succ eligible root,
      y ∈ (visit succ eligible limit fuel root .empty).marked := by
  have run := run_root succ eligible root positive enough
  intro y path
  induction path with
  | refl => exact run.visited complete root rfl
  | tail _ edge member => exact run.closed complete _ member (by simp [Trace.empty]) _ edge

/-- A traversal gives up exactly when more elements are reachable than it may mark. -/
theorem truncated_iff {fuel : Nat} (root : α) (positive : 0 < limit) (enough : limit ≤ fuel)
    (finite : (closure succ eligible root).Finite) :
    (visit succ eligible limit fuel root .empty).truncated = true ↔
      limit < (closure succ eligible root).ncard := by
  have run := run_root succ eligible root positive enough
  have included := visit_subset succ eligible root positive enough
  have size := Set.ncard_coe_finset
    (visit succ eligible limit fuel root .empty).marked.toFinset
  rw [List.toFinset_card_of_nodup run.nodup] at size
  constructor
  · intro truncated
    rcases run.cut truncated with impossible | ⟨full, y, ⟨x, isRoot, path⟩, unmarked⟩
    · exact absurd impossible (by simp [Trace.empty])
    · rw [← full, ← size]
      refine Set.ncard_lt_ncard ⟨fun z member => included z (by simpa using member), ?_⟩ finite
      exact fun all => unmarked (by simpa using all (isRoot ▸ path))
  · intro big
    by_contra complete
    have all := closure_subset_visit succ eligible root positive enough (by simpa using complete)
    have small : (closure succ eligible root).ncard ≤ limit := by
      refine le_trans ?_ run.bounded
      rw [← size]
      exact Set.ncard_le_ncard (fun z member => by simpa using all z member)
        (Finset.finite_toSet _)
    omega

/-- The number of marked elements is the number of reachable ones, cut at the limit. -/
theorem length_visit {fuel : Nat} (root : α) (positive : 0 < limit) (enough : limit ≤ fuel)
    (finite : (closure succ eligible root).Finite) :
    (visit succ eligible limit fuel root .empty).marked.length =
      min limit (closure succ eligible root).ncard := by
  have run := run_root succ eligible root positive enough
  have included := visit_subset succ eligible root positive enough
  have size := Set.ncard_coe_finset
    (visit succ eligible limit fuel root .empty).marked.toFinset
  rw [List.toFinset_card_of_nodup run.nodup] at size
  have upper : (visit succ eligible limit fuel root .empty).marked.length ≤
      (closure succ eligible root).ncard := by
    rw [← size]
    exact Set.ncard_le_ncard (fun z member => included z (by simpa using member)) finite
  cases truncated : (visit succ eligible limit fuel root .empty).truncated with
  | true =>
    have big := (truncated_iff succ eligible root positive enough finite).mp truncated
    rcases run.cut truncated with impossible | ⟨full, _⟩
    · exact absurd impossible (by simp [Trace.empty])
    · omega
  | false =>
    have all := closure_subset_visit succ eligible root positive enough truncated
    have lower : (closure succ eligible root).ncard ≤
        (visit succ eligible limit fuel root .empty).marked.length := by
      rw [← size]
      exact Set.ncard_le_ncard (fun z member => by simpa using all z member)
        (Finset.finite_toSet _)
    have := run.bounded
    omega

end Rooted

end Correctness

end Marking
