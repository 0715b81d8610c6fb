/-
This file is about the order in which depth-first marking comes to the elements of a graph.

A path takes a turn at each element, the position of the next one among its successors, and
it passes no element twice. Paths are compared turn by turn, and a path comes before those
that go on from its end. An element comes before another when one of its paths comes before
all the paths of the other. None of this speaks of a traversal.

The content is that a traversal with a budget marks the elements that have a path and fewer
elements before them than the budget allows.
-/

import Factum.Library.Marking

namespace Marking

variable {α : Type}

section Paths

variable (succ : α → List α) (eligible : α → Bool)

/-- A path with these turns that passes no element twice and none that it has to avoid. -/
inductive Path : Set α → α → List Nat → α → Prop
  | here {avoided : Set α} {x : α} (free : x ∉ avoided) : Path avoided x [] x
  | turn {avoided : Set α} {x y z : α} {position : Nat} {turns : List Nat} (free : x ∉ avoided)
      (next : (succ x)[position]? = some y) (enters : eligible y = true)
      (path : Path (insert x avoided) y turns z) : Path avoided x (position :: turns) z

/-- One of the paths to an element comes before all the paths to another. -/
def Before (root x y : α) : Prop :=
  ∃ turns, Path succ eligible ∅ root turns x ∧
    ∀ turns', Path succ eligible ∅ root turns' y → turns < turns'

/-- A path that starts at one of the elements of a list, with its position as first turn. -/
def Via (avoided : Set α) (starts : List α) : List Nat → α → Prop
  | [], _ => False
  | position :: turns, z => ∃ y, starts[position]? = some y ∧ eligible y = true ∧
      Path succ eligible avoided y turns z

variable {succ eligible}

theorem Path.mono {avoided : Set α} {x z : α} {turns : List Nat}
    (path : Path succ eligible avoided x turns z) :
    ∀ {fewer : Set α}, fewer ⊆ avoided → Path succ eligible fewer x turns z := by
  induction path with
  | here free => exact fun isSubset => .here fun inside => free (isSubset inside)
  | turn free next enters _ inductionHypothesis =>
    exact fun isSubset => .turn (fun inside => free (isSubset inside)) next enters
      (inductionHypothesis (Set.insert_subset_insert isSubset))

/-- A path leads to what is reachable. -/
theorem Path.mem_closure {avoided : Set α} {x z : α} {turns : List Nat}
    (path : Path succ eligible avoided x turns z) : z ∈ closure succ eligible x := by
  induction path with
  | here _ => exact .refl
  | turn _ next enters _ inductionHypothesis =>
    exact .head ⟨List.mem_of_getElem? next, enters⟩ inductionHypothesis

/-- A path does not leave a set that is closed away from what the path avoids. -/
theorem Path.stays {avoided inside : Set α} {x z : α} {turns : List Nat}
    (path : Path succ eligible avoided x turns z)
    (closed : ∀ w ∈ inside, w ∉ avoided → ∀ y, Edge succ eligible w y → y ∈ inside)
    (start : x ∈ inside) : z ∈ inside := by
  induction path with
  | here _ => exact start
  | turn free next enters _ inductionHypothesis =>
    have edge := closed _ start free _ ⟨List.mem_of_getElem? next, enters⟩
    exact inductionHypothesis (fun w isInside away =>
      closed w isInside fun avoids => away (Set.mem_insert_of_mem _ avoids)) edge

/-- A path to the outside of a closed set goes around the set. -/
theorem Path.around {avoided inside : Set α} {x z : α} {turns : List Nat}
    (path : Path succ eligible avoided x turns z)
    (closed : ∀ w ∈ inside, w ∉ avoided → ∀ y, Edge succ eligible w y → y ∈ inside)
    (outside : z ∉ inside) : Path succ eligible (avoided ∪ inside) x turns z := by
  induction path with
  | here free => exact .here fun either => either.elim free outside
  | @turn avoided x y z position turns free next enters path inductionHypothesis =>
    have away : x ∉ inside := fun start =>
      outside ((Path.turn free next enters path).stays closed start)
    have rest := inductionHypothesis (fun w isInside freed =>
      closed w isInside fun avoids => freed (Set.mem_insert_of_mem _ avoids)) outside
    refine .turn (fun either => either.elim free away) next enters (rest.mono ?_)
    rw [Set.insert_union]

/-- The new elements of a list come in the order of their first paths: each has a path that
comes before all the paths to what is not yet in the list. -/
def ByFirstPaths (paths : List Nat → α → Prop) (before after : List α) : Prop :=
  ∀ earlier y later, after = before ++ (earlier ++ y :: later) →
    ∃ turns, paths turns y ∧ ∀ z, z ∉ before → z ∉ earlier → z ≠ y →
      ∀ turns', paths turns' z → turns < turns'

theorem ByFirstPaths.refl (paths : List Nat → α → Prop) (before : List α) :
    ByFirstPaths paths before before := by
  intro earlier y later same
  simpa using congrArg List.length same

end Paths

/-- The order of paths stays the same when one more start is put in front. -/
theorem succ_turn_lt {position position' : Nat} {turns turns' : List Nat}
    (ahead : position :: turns < position' :: turns') :
    (position + 1) :: turns < (position' + 1) :: turns' := by
  rw [List.cons_lt_cons_iff] at ahead ⊢
  exact ahead.imp Nat.succ_lt_succ fun both => ⟨congrArg Nat.succ both.1, both.2⟩

/-! ### The order of a traversal -/

section Traversal

variable [DecidableEq α] {succ : α → List α} {eligible : α → Bool} {limit : Nat}

omit [DecidableEq α] in
/-- A traversal gives up only when its budget is spent. -/
theorem Run.spent {start : α → Prop} {before after : Trace α}
    (run : Run succ eligible limit start before after)
    (spent : before.truncated = true → limit ≤ before.marked.length)
    (truncated : after.truncated = true) : limit ≤ after.marked.length := by
  rcases run.cut truncated with earlier | ⟨full, _⟩
  · exact (spent earlier).trans run.grows.length_le
  · exact full.ge

omit [DecidableEq α] in
/-- After the first of several starts is visited the paths to what is new lead over the others. -/
theorem Via.later {avoided : Set α} {first : α} {rest : List α} {z : α} {turns : List Nat}
    {marked : Set α}
    (closed : ∀ w ∈ marked, w ∉ avoided → ∀ y, Edge succ eligible w y → y ∈ marked)
    (done : first ∈ marked) (fresh : z ∉ marked)
    (via : Via succ eligible avoided (first :: rest) turns z) :
    ∃ position others, turns = (position + 1) :: others ∧
      Via succ eligible marked rest (position :: others) z := by
  cases turns with
  | nil => exact via.elim
  | cons position others =>
    obtain ⟨y, isStart, enters, path⟩ := via
    cases position with
    | zero =>
      obtain rfl : first = y := by simpa using isStart
      exact absurd (path.stays closed done) fresh
    | succ position =>
      refine ⟨position, others, rfl, y, by simpa using isStart, enters, ?_⟩
      exact (path.around closed fresh).mono fun w isMarked => .inr isMarked

omit [DecidableEq α] in
/-- A path through the first start that comes before the others through it comes before all the
others. -/
theorem exists_via_first {avoided : Set α} {first y : α} {rest : List α} {open_ : α → Prop}
    (enters : eligible first = true)
    (found : ∃ turns, Path succ eligible avoided first turns y ∧ ∀ z, open_ z → z ≠ y →
      ∀ turns', Path succ eligible avoided first turns' z → turns < turns') :
    ∃ turns, Via succ eligible avoided (first :: rest) turns y ∧ ∀ z, open_ z → z ≠ y →
      ∀ turns', Via succ eligible avoided (first :: rest) turns' z → turns < turns' := by
  obtain ⟨turns, path, leads⟩ := found
  refine ⟨0 :: turns, ⟨first, rfl, enters, path⟩, fun z isOpen isOther => ?_⟩
  rintro (_ | ⟨position, turns'⟩) via
  · exact via.elim
  · obtain ⟨start, isStart, _, path'⟩ := via
    cases position with
    | zero =>
      obtain rfl : first = start := by simpa using isStart
      exact List.cons_lt_cons_iff.mpr (.inr ⟨rfl, leads z isOpen isOther turns' path'⟩)
    | succ position => exact List.cons_lt_cons_iff.mpr (.inl (Nat.succ_pos position))

omit [DecidableEq α] in
/-- Where the paths to what is not marked lead over the later starts, one that comes before the
others over them comes before all the others. -/
theorem exists_via_rest {avoided marked : Set α} {first y : α} {rest : List α}
    {open_ : α → Prop} (grown : avoided ⊆ marked)
    (passes : ∀ z turns, open_ z → Via succ eligible avoided (first :: rest) turns z →
      ∃ position others, turns = (position + 1) :: others ∧
        Via succ eligible marked rest (position :: others) z)
    (found : ∃ turns, Via succ eligible marked rest turns y ∧ ∀ z, open_ z → z ≠ y →
      ∀ turns', Via succ eligible marked rest turns' z → turns < turns') :
    ∃ turns, Via succ eligible avoided (first :: rest) turns y ∧ ∀ z, open_ z → z ≠ y →
      ∀ turns', Via succ eligible avoided (first :: rest) turns' z → turns < turns' := by
  obtain ⟨turns, via, leads⟩ := found
  cases turns with
  | nil => exact via.elim
  | cons position turns =>
    obtain ⟨start, isStart, enters, path⟩ := via
    refine ⟨(position + 1) :: turns, ⟨start, by simpa using isStart, enters, path.mono grown⟩,
      fun z isOpen isOther turns' via' => ?_⟩
    obtain ⟨position', others', rfl, viaLater⟩ := passes z turns' isOpen via'
    exact succ_turn_lt (leads z isOpen isOther _ viaLater)

omit [DecidableEq α] in
/-- No path starts at an element that is not entered. -/
theorem Via.not_first {avoided : Set α} {first : α} {rest : List α}
    (unwanted : ¬ (eligible first = true ∧ first ∉ avoided)) {z : α} {turns : List Nat}
    (via : Via succ eligible avoided (first :: rest) turns z) :
    ∃ position others, turns = (position + 1) :: others ∧
      Via succ eligible avoided rest (position :: others) z := by
  cases turns with
  | nil => exact via.elim
  | cons position others =>
    obtain ⟨start, isStart, enters, path⟩ := via
    cases position with
    | zero =>
      obtain rfl : first = start := by simpa using isStart
      refine absurd ⟨enters, ?_⟩ unwanted
      cases path with
      | here free => exact free
      | turn free => exact free
    | succ position => exact ⟨position, others, rfl, start, by simpa using isStart, enters, path⟩

omit [DecidableEq α] in
/-- An element of two lists in a row is in the first or in the second. -/
theorem split_of_append {new newer earlier later : List α} {y : α}
    (whole : new ++ newer = earlier ++ y :: later) :
    (∃ behind, new = earlier ++ y :: behind) ∨
      ∃ between, earlier = new ++ between ∧ newer = between ++ y :: later := by
  rcases List.append_eq_append_iff.mp whole with
    ⟨between, isEarlier, isBetween⟩ | ⟨behind, isFirst, isBehind⟩
  · exact .inr ⟨between, isEarlier, isBetween⟩
  · cases behind with
    | nil => exact .inr ⟨[], by simpa using isFirst.symm, by simpa using isBehind.symm⟩
    | cons next behind =>
      obtain ⟨rfl, -⟩ := List.cons.inj isBehind
      exact .inl ⟨behind, isFirst⟩

theorem byFirstPaths_visitEach {visitOne : α → Trace α → Trace α} (least : Nat)
    (each : ∀ x trace, x ∉ trace.marked → trace.marked.Nodup → trace.marked.length < limit →
      least ≤ trace.marked.length → Run succ eligible limit (· = x) trace (visitOne x trace))
    (inOrder : ∀ x trace, x ∉ trace.marked → trace.marked.Nodup →
      trace.marked.length < limit → least ≤ trace.marked.length →
      (trace.truncated = true → limit ≤ trace.marked.length) →
      ByFirstPaths (Path succ eligible {y | y ∈ trace.marked} x) trace.marked
        (visitOne x trace).marked) :
    ∀ (ys : List α) (trace : Trace α), trace.marked.Nodup → trace.marked.length ≤ limit →
      least ≤ trace.marked.length →
      (trace.truncated = true → limit ≤ trace.marked.length) →
      ByFirstPaths (Via succ eligible {y | y ∈ trace.marked} ys) trace.marked
        (visitEach eligible limit visitOne ys trace).marked := by
  intro ys
  induction ys with
  | nil => exact fun trace _ _ _ _ => .refl _ _
  | cons first rest inductionHypothesis =>
    intro trace nodup bounded enough spent
    rw [visitEach]
    by_cases wanted : eligible first = true ∧ first ∉ trace.marked
    · rw [if_pos (by simpa using wanted)]
      by_cases full : limit ≤ trace.marked.length
      · rw [if_pos full]
        exact .refl _ _
      · rw [if_neg full]
        have room : trace.marked.length < limit := Nat.lt_of_not_le full
        have one := each first trace wanted.2 nodup room enough
        have oneSpent := one.spent spent
        have others := run_visitEach least each rest (visitOne first trace) one.nodup one.bounded
          (enough.trans one.grows.length_le)
        obtain ⟨new, isNew⟩ := one.grows
        obtain ⟨newer, isNewer⟩ := others.grows
        intro earlier y later whole
        rw [← isNewer, ← isNew, List.append_assoc, List.append_cancel_left_eq] at whole
        rcases split_of_append whole with ⟨behind, isSplit⟩ | ⟨between, rfl, isSplit⟩
        · -- the element is reached from the first start
          obtain ⟨turns, path, leads⟩ := inOrder first trace wanted.2 nodup room enough spent
            earlier y behind (by rw [← isNew, isSplit])
          obtain ⟨turns, via, leads⟩ := exists_via_first wanted.1
            ⟨turns, path, fun z (isOpen : z ∉ trace.marked ∧ z ∉ earlier) =>
              leads z isOpen.1 isOpen.2⟩
          exact ⟨turns, via, fun z fresh notEarlier => leads z ⟨fresh, notEarlier⟩⟩
        · -- the element is marked later, so the visit of the first start was not cut
          rw [isSplit] at isNewer
          have marksMore : (visitOne first trace).marked.length < limit := by
            have atMost := others.bounded
            rw [← isNewer] at atMost
            simp only [List.length_append, List.length_cons] at atMost
            omega
          have complete : (visitOne first trace).truncated = false := by
            by_contra truncated
            have := oneSpent (by simpa using truncated)
            omega
          obtain ⟨turns, via, leads⟩ := inductionHypothesis (visitOne first trace) one.nodup
            one.bounded (enough.trans one.grows.length_le) oneSpent between y later isNewer.symm
          obtain ⟨turns, via, leads⟩ := exists_via_rest
            (fun w member => one.grows.subset member)
            (fun z turns (isOpen : z ∉ (visitOne first trace).marked ∧ z ∉ between) =>
              Via.later (one.closed complete) (one.visited complete first rfl) isOpen.1)
            ⟨turns, via, fun z isOpen => leads z isOpen.1 isOpen.2⟩
          refine ⟨turns, via, fun z fresh notEarlier => leads z ⟨?_, ?_⟩⟩
          · rw [← isNew]
            simp only [List.mem_append, not_or] at notEarlier ⊢
            exact ⟨fresh, notEarlier.1⟩
          · exact fun inside => notEarlier (List.mem_append_right _ inside)
    · rw [if_neg (by simpa using wanted)]
      intro earlier y later whole
      obtain ⟨turns, via, leads⟩ := inductionHypothesis trace nodup bounded enough spent
        earlier y later whole
      obtain ⟨turns, via, leads⟩ := exists_via_rest (fun w member => member)
        (fun z turns (isOpen : z ∉ trace.marked ∧ z ∉ earlier) => Via.not_first wanted)
        ⟨turns, via, fun z isOpen => leads z isOpen.1 isOpen.2⟩
      exact ⟨turns, via, fun z fresh notEarlier => leads z ⟨fresh, notEarlier⟩⟩

theorem byFirstPaths_visit : ∀ (fuel : Nat) (x : α) (trace : Trace α), x ∉ trace.marked →
    trace.marked.Nodup → trace.marked.length < limit → limit ≤ fuel + trace.marked.length →
    (trace.truncated = true → limit ≤ trace.marked.length) →
    ByFirstPaths (Path succ eligible {y | y ∈ trace.marked} x) trace.marked
      (visit succ eligible limit fuel x trace).marked := by
  intro fuel
  induction fuel with
  | zero =>
    intro x trace _ _ room enough
    omega
  | succ fuel inductionHypothesis =>
    intro x trace fresh nodup room enough spent
    have markedNodup : (trace.mark x).marked.Nodup := by
      rw [Trace.mark_marked, List.nodup_append]
      refine ⟨nodup, List.nodup_singleton x, ?_⟩
      intro y member z isX same
      rw [List.mem_singleton] at isX
      exact fresh (isX ▸ same ▸ member)
    have markedLength : (trace.mark x).marked.length = trace.marked.length + 1 := by simp
    have ordered : ByFirstPaths (Via succ eligible {y | y ∈ (trace.mark x).marked} (succ x))
        (trace.mark x).marked
        (visitEach eligible limit (visit succ eligible limit fuel) (succ x)
          (trace.mark x)).marked := byFirstPaths_visitEach (limit - fuel)
      (fun y t unmarked distinct space least =>
        run_visit fuel y t unmarked distinct space (by omega))
      (fun y t unmarked distinct space least =>
        inductionHypothesis y t unmarked distinct space (by omega))
      (succ x) (trace.mark x) markedNodup (by omega) (by omega)
      (fun truncated => (spent truncated).trans (by omega))
    have avoids : {y | y ∈ (trace.mark x).marked} = insert x {y | y ∈ trace.marked} := by
      ext y
      simp [or_comm]
    rw [avoids] at ordered
    obtain ⟨newer, isNewer⟩ : (trace.mark x).marked <+: (visitEach eligible limit
        (visit succ eligible limit fuel) (succ x) (trace.mark x)).marked :=
      visitEach_grows (visit_grows fuel) (succ x) (trace.mark x)
    rw [visit]
    intro earlier y later whole
    cases earlier with
    | nil =>
      rw [← isNewer, Trace.mark_marked, List.append_assoc, List.append_cancel_left_eq] at whole
      obtain ⟨rfl, -⟩ := List.cons.inj whole
      refine ⟨[], .here fresh, fun z _ _ isOther turns' path' => ?_⟩
      cases path' with
      | here => exact absurd rfl isOther
      | turn => exact List.nil_lt_cons _ _
    | cons root earlier =>
      have same := whole
      rw [← isNewer, Trace.mark_marked, List.append_assoc, List.append_cancel_left_eq] at same
      obtain ⟨rfl, -⟩ := List.cons.inj same
      obtain ⟨turns, via, leads⟩ := ordered earlier y later (by rw [whole]; simp)
      cases turns with
      | nil => exact via.elim
      | cons position turns =>
        obtain ⟨start, isStart, enters, path⟩ := via
        refine ⟨position :: turns, .turn fresh isStart enters path,
          fun z notBefore notEarlier isOther turns' path' => ?_⟩
        rw [List.mem_cons, not_or] at notEarlier
        cases path' with
        | here => exact absurd rfl notEarlier.1
        | turn free next enters' path' =>
          refine leads z ?_ notEarlier.2 isOther _ ⟨_, next, enters', path'⟩
          rw [Trace.mark_marked, List.mem_append, List.mem_singleton, not_or]
          exact ⟨notBefore, notEarlier.1⟩

/-- What a traversal marks: what has a path and fewer elements before it than the limit. -/
theorem mem_visit_iff {fuel : Nat} (root y : α) (positive : 0 < limit) (enough : limit ≤ fuel) :
    y ∈ (visit succ eligible limit fuel root .empty).marked ↔
      (∃ turns, Path succ eligible ∅ root turns y) ∧
        ∀ earlier : List α, earlier.Nodup →
          (∀ x ∈ earlier, Before succ eligible root x y) → earlier.length < limit := by
  have run := run_root succ eligible root positive enough
  have ordered : ByFirstPaths (Path succ eligible {y | y ∈ (Trace.empty : Trace α).marked} root)
      (Trace.empty : Trace α).marked (visit succ eligible limit fuel root .empty).marked :=
    byFirstPaths_visit fuel root .empty (by simp [Trace.empty]) (by simp [Trace.empty]) positive
      enough (by simp [Trace.empty])
  have none_ : {y : α | y ∈ (Trace.empty : Trace α).marked} = ∅ := by
    ext y
    simp [Trace.empty]
  rw [none_] at ordered
  constructor
  · intro member
    obtain ⟨earlier, later, whole⟩ := List.append_of_mem member
    obtain ⟨turns, path, leads⟩ := ordered earlier y later whole
    refine ⟨⟨turns, path⟩, fun others distinct before => ?_⟩
    -- what comes before the element is marked before it
    have included : others ⊆ earlier := by
      intro x isOther
      by_contra notEarlier
      obtain ⟨turns', path', first⟩ := before x isOther
      have ahead := first turns path
      by_cases same : x = y
      · exact List.lt_irrefl _ (first turns' (same ▸ path'))
      · exact List.lt_asymm ahead
          (leads x (by simp [Trace.empty]) notEarlier same turns' path')
    have bounded := run.bounded
    rw [whole] at bounded
    have fits := (distinct.subperm included).length_le
    simp only [List.length_append, List.length_cons] at bounded
    omega
  · rintro ⟨⟨turns, path⟩, few⟩
    by_contra unmarked
    have reached := path.mem_closure
    have truncated : (visit succ eligible limit fuel root .empty).truncated = true := by
      by_contra complete
      exact unmarked (closure_subset_visit succ eligible root positive enough
        (by simpa using complete) y reached)
    rcases run.cut truncated with impossible | ⟨full, _⟩
    · exact absurd impossible (by simp [Trace.empty])
    · refine absurd (few _ run.nodup fun x member => ?_) (by omega)
      obtain ⟨earlier, later, whole⟩ := List.append_of_mem member
      obtain ⟨turns', path', leads⟩ := ordered earlier x later whole
      refine ⟨turns', path', fun other isPath => leads y (by simp [Trace.empty]) ?_ ?_ other isPath⟩
      · exact fun isEarlier => unmarked (by rw [whole]; exact List.mem_append_left _ isEarlier)
      · exact fun same => unmarked (same ▸ member)

end Traversal

end Marking
