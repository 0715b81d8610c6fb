/-
This file is about what the levels of semantic equivalence mean.

Two predicates have the same shape when they are the same up to the values of their leaves,
with heads compared by the names that the registry has for them, and they agree when the
leaves are the same too. The comparison tells these apart however a wrong value and a
different shape are met. But it counts wrong values in 32 bits, and where the count wraps
around to zero it takes a predicate with wrong values for one whose metadata drifted.
-/

import Mathlib.Tactic.Linarith
import Mathlib.Tactic.NormNum
import Factum.Sequiv
import Factum.Vocabulary

namespace Factum

/-! ### Shapes and leaves -/

/-- The name of a head, as far as the registry knows it. -/
def MorphemeRegistry.resolvedName (registry : MorphemeRegistry) (head : PredicateHead) : String :=
  (registry.headInfo head).2

/-- In a registry that registrations build, a name stands for itself, and an identifier that is
not registered for `M` and its number. -/
theorem MorphemeRegistry.Registered.resolvedName_eq {registry : MorphemeRegistry}
    (registered : registry.Registered) (few : registry.byId.length ≤ 2 ^ 32)
    (head : PredicateHead) : registry.resolvedName head = registry.headName head := by
  cases head with
  | id id =>
    rw [resolvedName, headInfo, headName]
    cases registry.lookupId id <;> rfl
  | name name =>
    rw [resolvedName, headInfo, headName]
    cases found : registry.lookup name with
    | none => rfl
    | some definition =>
      rw [lookup] at found
      cases isId : registry.byName.lookup name with
      | none =>
        rw [isId] at found
        cases found
      | some id =>
        rw [isId] at found
        obtain ⟨definition', isAt, isName⟩ := (registered.resolve_iff few name id).mp isId
        rwa [Option.some.inj (found.symm.trans isAt)]

/-- Leaves of one kind, literals of one type among them. -/
def Term.SameKind : Term → Term → Prop
  | .var _, .var _ | .ent _, .ent _ => True
  | .lit a, .lit b => sameType a b = true
  | _, _ => False

section Matches

variable (registry : MorphemeRegistry) (leaf : Term → Term → Prop)

mutual

/-- Two predicates have one structure, with heads of one name and leaves that are related. -/
def Predicate.Matches : Predicate → Predicate → Prop
  | ⟨headA, argsA, namedA⟩, ⟨headB, argsB, namedB⟩ =>
    registry.resolvedName headA = registry.resolvedName headB ∧ Term.MatchesAll argsA argsB ∧
      Term.MatchesNamed namedA namedB
termination_by structural a => a

/-- Two terms have one shape, and leaves that are related. -/
def Term.Matches : Term → Term → Prop
  | .compound a, .compound b => a.Matches b
  | .list a, .list b => Term.MatchesAll a b
  | .var a, .var b => leaf (.var a) (.var b)
  | .ent a, .ent b => leaf (.ent a) (.ent b)
  | .lit a, .lit b => leaf (.lit a) (.lit b)
  | _, _ => False
termination_by structural a => a

/-- Two lists of terms are as long as each other and match in each place. -/
def Term.MatchesAll : List Term → List Term → Prop
  | [], [] => True
  | a :: restA, b :: restB => a.Matches b ∧ Term.MatchesAll restA restB
  | _, _ => False
termination_by structural a => a

/-- Two lists of named arguments have the same keys and match in each place. -/
def Term.MatchesNamed : List (String × Term) → List (String × Term) → Prop
  | [], [] => True
  | (keyA, a) :: restA, (keyB, b) :: restB =>
    keyA = keyB ∧ a.Matches b ∧ Term.MatchesNamed restA restB
  | _, _ => False
termination_by structural a => a

end

end Matches

/-- Two predicates differ in nothing but their leaves. -/
def Predicate.SameShape (registry : MorphemeRegistry) : Predicate → Predicate → Prop :=
  Predicate.Matches registry Term.SameKind

/-- Two predicates are the same up to the resolution of their heads. -/
def Predicate.Agrees (registry : MorphemeRegistry) : Predicate → Predicate → Prop :=
  Predicate.Matches registry (· = ·)

mutual

/-- Some leaf of a predicate differs from the one in its place. -/
def Predicate.LeafDiffers : Predicate → Predicate → Prop
  | ⟨_, argsA, namedA⟩, ⟨_, argsB, namedB⟩ =>
    Term.LeafDiffersIn argsA argsB ∨ Term.LeafDiffersNamed namedA namedB
termination_by structural a => a

/-- Some leaf of a term differs from the one in its place. -/
def Term.LeafDiffers : Term → Term → Prop
  | .compound a, .compound b => a.LeafDiffers b
  | .list a, .list b => Term.LeafDiffersIn a b
  | a, b => a ≠ b
termination_by structural a => a

/-- Some leaf in a list of terms differs from the one in its place. -/
def Term.LeafDiffersIn : List Term → List Term → Prop
  | a :: restA, b :: restB => a.LeafDiffers b ∨ Term.LeafDiffersIn restA restB
  | _, _ => False
termination_by structural a => a

/-- Some leaf among named arguments differs from the one in its place. -/
def Term.LeafDiffersNamed : List (String × Term) → List (String × Term) → Prop
  | (_, a) :: restA, (_, b) :: restB => a.LeafDiffers b ∨ Term.LeafDiffersNamed restA restB
  | _, _ => False
termination_by structural a => a

end

/-- A 32-bit count of that many is not zero. -/
def showsIn32 (count : Nat) : Bool := count % 2 ^ 32 != 0

mutual

/-- The number of arguments of a predicate whose values are noticed to be wrong. -/
def Predicate.wrongArgs : Predicate → Predicate → Nat
  | ⟨_, argsA, namedA⟩, ⟨_, argsB, namedB⟩ =>
    Term.wrongIn argsA argsB + Term.wrongNamed namedA namedB
termination_by structural a => a

/-- A wrong value is noticed: a leaf that differs, or a compound or a list in which the number
of wrong values that are noticed is no multiple of `2 ^ 32` but zero. -/
def Term.noticed : Term → Term → Bool
  | .compound a, .compound b => showsIn32 (a.wrongArgs b)
  | .list a, .list b => showsIn32 (Term.wrongIn a b)
  | a, b => a != b
termination_by structural a => a

/-- The number of terms of a list whose values are noticed to be wrong. -/
def Term.wrongIn : List Term → List Term → Nat
  | a :: restA, b :: restB => (a.noticed b).toNat + Term.wrongIn restA restB
  | _, _ => 0
termination_by structural a => a

/-- The number of named arguments whose values are noticed to be wrong. -/
def Term.wrongNamed : List (String × Term) → List (String × Term) → Nat
  | (_, a) :: restA, (_, b) :: restB => (a.noticed b).toNat + Term.wrongNamed restA restB
  | _, _ => 0
termination_by structural a => a

end

/-- Wrong values of a predicate are noticed. -/
def Predicate.noticed (a b : Predicate) : Bool := showsIn32 (a.wrongArgs b)

/-! ### What a result says -/

namespace SemEquiv

variable {F : Type} [F32 F]

/-- What the level of a result says about two values. -/
structure Tells (result : EquivResult F) (shape agree : Prop) (noticed : Bool) : Prop where
  different : result.level = .different ↔ ¬ shape
  exact : result.level = .exact ↔ agree
  wrongValues : result.level = .wrongValues ↔ shape ∧ noticed = true

omit [F32 F] in
theorem Tells.shape {result : EquivResult F} {shape agree : Prop} {noticed : Bool}
    (tells : Tells result shape agree noticed) (agrees : agree) : shape := by
  by_contra different
  have isDifferent := tells.different.mpr different
  rw [tells.exact.mpr agrees] at isDifferent
  cases isDifferent

omit [F32 F] in
theorem Tells.quiet {result : EquivResult F} {shape agree : Prop} {noticed : Bool}
    (tells : Tells result shape agree noticed) (agrees : agree) : noticed = false := by
  by_contra isNoticed
  have isWrong := tells.wrongValues.mpr ⟨tells.shape agrees, Bool.eq_true_of_not_eq_false isNoticed⟩
  rw [tells.exact.mpr agrees] at isWrong
  cases isWrong

theorem tells_different {shape agree : Prop} (noticed : Bool) (notShape : ¬ shape)
    (notAgree : ¬ agree) (reason : String) :
    Tells (.different reason : EquivResult F) shape agree noticed where
  different := iff_of_true rfl notShape
  exact := iff_of_false nofun notAgree
  wrongValues := iff_of_false nofun fun both => notShape both.1

theorem tells_exact {shape agree : Prop} (isShape : shape) (agrees : agree) :
    Tells (.exact : EquivResult F) shape agree false where
  different := iff_of_false nofun (not_not.mpr isShape)
  exact := iff_of_true rfl agrees
  wrongValues := iff_of_false nofun nofun

theorem tells_wrongValues {shape agree : Prop} (isShape : shape) (notAgree : ¬ agree) (score : F)
    (differences : List String) :
    Tells (.wrongValues score differences : EquivResult F) shape agree true where
  different := iff_of_false nofun (not_not.mpr isShape)
  exact := iff_of_false nofun notAgree
  wrongValues := iff_of_true rfl ⟨isShape, rfl⟩

/-- What a loop over values leaves, from a tally. -/
structure Counted (result : Except String Tally) (tally : Tally) (shape agree : Prop)
    (count : Nat) : Prop where
  stops : (∃ reason, result = .error reason) ↔ ¬ shape
  counts : ∀ later, result = .ok later →
    later.wrongCount = tally.wrongCount + UInt32.ofNat count ∧
      (later.diffs = [] ↔ tally.diffs = [] ∧ agree)
  quiet : agree → shape ∧ count = 0

theorem counted_ok (tally : Tally) : Counted (.ok tally) tally True True 0 where
  stops := iff_of_false nofun (not_not.mpr trivial)
  counts := by
    rintro later ⟨⟩
    exact ⟨(UInt32.add_zero _).symm, (and_iff_left trivial).symm⟩
  quiet := fun _ => ⟨trivial, rfl⟩

theorem counted_error {shape agree : Prop} {count : Nat} (notShape : ¬ shape)
    (notAgree : ¬ agree) (tally : Tally) (reason : String) :
    Counted (.error reason) tally shape agree count where
  stops := iff_of_true ⟨reason, rfl⟩ notShape
  counts := nofun
  quiet := fun agrees => absurd agrees notAgree

omit [F32 F] in
/-- The result for one value is taken into account. -/
theorem Tells.take {result : EquivResult F} {shape agree : Prop} {noticed : Bool}
    (tells : Tells result shape agree noticed) (tally : Tally) (wording : Wording) (i : Nat) :
    Counted (tally.take wording i result) tally shape agree noticed.toNat := by
  have quiet : agree → shape ∧ noticed.toNat = 0 :=
    fun agrees => ⟨tells.shape agrees, by rw [tells.quiet agrees]; rfl⟩
  have noteNe : ∀ text : String, tally.diffs ++ [text] ≠ [] := fun text => by simp
  obtain ⟨different, exact_, wrongValues⟩ := tells
  unfold Tally.take
  cases isLevel : result.level with
  | exact =>
    have agrees := exact_.mp isLevel
    have isShape := (quiet agrees).1
    refine ⟨iff_of_false nofun (not_not.mpr isShape), ?_, quiet⟩
    rintro later ⟨⟩
    rw [(quiet agrees).2]
    exact ⟨(UInt32.add_zero _).symm, (and_iff_left agrees).symm⟩
  | wrongValues =>
    obtain ⟨isShape, isNoticed⟩ := wrongValues.mp isLevel
    have notAgree : ¬ agree := fun agrees => by
      cases isLevel.symm.trans (exact_.mpr agrees)
    refine ⟨iff_of_false nofun (not_not.mpr isShape), ?_, quiet⟩
    rintro later ⟨⟩
    rw [isNoticed]
    exact ⟨rfl, iff_of_false (noteNe _) fun both => notAgree both.2⟩
  | different =>
    have notShape := different.mp isLevel
    exact counted_error notShape (fun agrees => notShape (quiet agrees).1) _ _
  | metadataDrift =>
    have isShape : shape := by
      by_contra notShape
      cases isLevel.symm.trans (different.mpr notShape)
    have notNoticed : noticed = false := by
      by_contra isNoticed
      cases isLevel.symm.trans
        (wrongValues.mpr ⟨isShape, Bool.eq_true_of_not_eq_false isNoticed⟩)
    have notAgree : ¬ agree := fun agrees => by
      cases isLevel.symm.trans (exact_.mpr agrees)
    refine ⟨iff_of_false nofun (not_not.mpr isShape), ?_, quiet⟩
    rintro later ⟨⟩
    rw [notNoticed]
    exact ⟨(UInt32.add_zero _).symm, iff_of_false (noteNe _) fun both => notAgree both.2⟩

/-- Two loops one after the other. -/
theorem Counted.bind {result : Except String Tally} {tally : Tally}
    {shape agree shape' agree' : Prop} {count count' : Nat}
    (counted : Counted result tally shape agree count) {rest : Tally → Except String Tally}
    (counted' : ∀ later, Counted (rest later) later shape' agree' count') :
    Counted (result.bind rest) tally (shape ∧ shape') (agree ∧ agree') (count + count') := by
  have quiet : agree ∧ agree' → (shape ∧ shape') ∧ count + count' = 0 := by
    rintro ⟨agrees, agrees'⟩
    obtain ⟨isShape, isZero⟩ := counted.quiet agrees
    obtain ⟨isShape', isZero'⟩ := (counted' tally).quiet agrees'
    exact ⟨⟨isShape, isShape'⟩, by rw [isZero, isZero']⟩
  cases result with
  | error reason =>
    have notShape := counted.stops.mp ⟨reason, rfl⟩
    exact counted_error (fun both => notShape both.1)
      (fun both => notShape (counted.quiet both.1).1) _ _
  | ok later =>
    obtain ⟨isCount, isDiffs⟩ := counted.counts later rfl
    have isShape : shape := by
      by_contra notShape
      obtain ⟨reason, ⟨⟩⟩ := counted.stops.mpr notShape
    refine ⟨?_, fun last ran' => ?_, quiet⟩
    · rw [and_iff_right isShape]
      exact (counted' later).stops
    · obtain ⟨isCount', isDiffs'⟩ := (counted' later).counts last ran'
      refine ⟨?_, ?_⟩
      · rw [isCount', isCount, UInt32.ofNat_add, UInt32.add_assoc]
      · rw [isDiffs', isDiffs, and_assoc]

/-! ### What a comparison says -/

theorem showsIn32_iff (count : Nat) : showsIn32 count = true ↔ 0 < UInt32.ofNat count := by
  rw [showsIn32, UInt32.lt_iff_toNat_lt, UInt32.toNat_ofNat', bne_iff_ne]
  exact Nat.pos_iff_ne_zero.symm

/-- The comparison of values stops, or ends with a number of wrong ones. -/
inductive Concludes (shape agree : Prop) (count : Nat) : EquivResult F → Prop
  | different (notShape : ¬ shape) (notAgree : ¬ agree) (reason : String) :
    Concludes shape agree count (.different reason)
  | counted (isShape : shape) (quiet : agree → count = 0) (diffs : List String)
    (isDiffs : diffs = [] ↔ agree) :
    Concludes shape agree count (Tally.conclude ⟨diffs, UInt32.ofNat count⟩)

/-- The result of a comparison whose loop is over. -/
def settle (result : Except String Tally) : EquivResult F :=
  match result with
  | .error reason => .different reason
  | .ok tally => tally.conclude

theorem Counted.concludes {result : Except String Tally} {shape agree : Prop} {count : Nat}
    (counted : Counted result ⟨[], 0⟩ shape agree count) :
    Concludes shape agree count (settle result : EquivResult F) := by
  cases result with
  | error reason =>
    have notShape := counted.stops.mp ⟨reason, rfl⟩
    exact .different notShape (fun agrees => notShape (counted.quiet agrees).1) reason
  | ok tally =>
    have isShape : shape := by
      by_contra notShape
      obtain ⟨reason, ⟨⟩⟩ := counted.stops.mpr notShape
    obtain ⟨isCount, isDiffs⟩ := counted.counts tally rfl
    rw [UInt32.zero_add] at isCount
    rw [settle, show tally = ⟨tally.diffs, UInt32.ofNat count⟩ by rw [← isCount]]
    exact .counted isShape (fun agrees => (counted.quiet agrees).2) _
      (isDiffs.trans (and_iff_right rfl))

theorem Concludes.tells {shape agree : Prop} {count : Nat} {result : EquivResult F}
    (concludes : Concludes shape agree count result) :
    Tells result shape agree (showsIn32 count) := by
  cases concludes with
  | different notShape notAgree reason => exact tells_different _ notShape notAgree reason
  | counted isShape quiet diffs isDiffs =>
    unfold Tally.conclude
    split_ifs with positive isEmpty
    · have isNoticed := (showsIn32_iff count).mpr positive
      rw [isNoticed]
      refine tells_wrongValues isShape (fun agrees => ?_) _ _
      rw [quiet agrees] at isNoticed
      cases isNoticed
    · have agrees := isDiffs.mp (List.isEmpty_iff.mp isEmpty)
      rw [quiet agrees]
      exact tells_exact isShape agrees
    · have notNoticed := fun isNoticed => positive ((showsIn32_iff count).mp isNoticed)
      have notAgree : ¬ agree := fun agrees => isEmpty (List.isEmpty_iff.mpr (isDiffs.mpr agrees))
      exact ⟨iff_of_false nofun (not_not.mpr isShape), iff_of_false nofun notAgree,
        iff_of_false nofun fun both => notNoticed both.2⟩

theorem tells_leaf {same shape agree : Prop} [Decidable same] (isShape : shape)
    (isAgree : agree ↔ same) {noticed : Bool} (isNoticed : noticed = !decide same) (score : F)
    (differences : List String) :
    Tells (if same then .exact else .wrongValues score differences) shape agree noticed := by
  rw [isNoticed]
  split_ifs with isSame
  · rw [decide_eq_true isSame]
    exact tells_exact isShape (isAgree.mpr isSame)
  · rw [decide_eq_false isSame]
    exact tells_wrongValues isShape (fun agrees => isSame (isAgree.mp agrees)) _ _

theorem litEq_eq (a b : Literal) : litEq a b = decide (a = b) := by
  unfold litEq
  split
  · simp [Bool.beq_eq_decide_eq]
  · exact Bool.beq_eq_decide_eq _ _

theorem bne_leaf {a b : Term} {same : Prop} [Decidable same] (iff : a = b ↔ same) :
    (a != b) = !decide same := by
  rw [bne, Bool.beq_eq_decide_eq, decide_eq_decide.mpr iff]

theorem sameType_of_litEq {a b : Literal} (isSame : litEq a b = true) : sameType a b = true := by
  rw [litEq_eq, decide_eq_true_eq] at isSame
  rw [isSame]
  cases b <;> rfl

theorem length_of_matchesAll {registry : MorphemeRegistry} {leaf : Term → Term → Prop} :
    ∀ {a b : List Term}, Term.MatchesAll registry leaf a b → a.length = b.length
  | [], [], _ => rfl
  | _ :: _, _ :: _, ⟨_, later⟩ => congrArg (· + 1) (length_of_matchesAll later)

theorem length_of_matchesNamed {registry : MorphemeRegistry} {leaf : Term → Term → Prop} :
    ∀ {a b : List (String × Term)}, Term.MatchesNamed registry leaf a b → a.length = b.length
  | [], [], _ => rfl
  | (_, _) :: _, (_, _) :: _, ⟨_, _, later⟩ => congrArg (· + 1) (length_of_matchesNamed later)

theorem compareHeads_of_eq {registry : MorphemeRegistry} {a b : PredicateHead}
    (sameName : registry.resolvedName a = registry.resolvedName b) :
    compareHeads registry a b = .same := if_pos sameName

theorem compareHeads_of_ne {registry : MorphemeRegistry} {a b : PredicateHead}
    (different : registry.resolvedName a ≠ registry.resolvedName b) :
    (∃ kindA kindB, compareHeads registry a b = .sameKind kindA kindB) ∨
      compareHeads registry a b = .different := by
  have isHead : compareHeads registry a b =
      if (registry.headInfo a).1 = (registry.headInfo b).1 then
        .sameKind (registry.headInfo a).1 (registry.headInfo b).1
      else .different := if_neg different
  rw [isHead]
  split_ifs
  · exact .inl ⟨_, _, rfl⟩
  · exact .inr rfl

section Compare

variable (host : Host F) (registry : MorphemeRegistry)

theorem compareTerms_list {a b : List Term} (sameLength : a.length = b.length) :
    compareTerms host registry (.list a) (.list b) =
      settle (compareAll host registry .items a b 0 ⟨[], 0⟩) := by
  rw [compareTerms, if_neg (not_not.mpr sameLength)]
  rfl

/-- The arguments of predicates of one head are compared one after the other. -/
theorem comparePredicates_same {headA headB : PredicateHead} {argsA argsB : List Term}
    {namedA namedB : List (String × Term)}
    (sameName : registry.resolvedName headA = registry.resolvedName headB)
    (sameArgs : argsA.length = argsB.length) (sameNamed : namedA.length = namedB.length) :
    comparePredicates host registry ⟨headA, argsA, namedA⟩ ⟨headB, argsB, namedB⟩ =
      settle ((compareAll host registry .args argsA argsB 0 ⟨[], 0⟩).bind
        (compareNamed host registry namedA namedB 0)) := by
  rw [comparePredicates, compareHeads_of_eq sameName]
  dsimp only
  rw [if_neg (not_not.mpr sameArgs)]
  cases compareAll host registry .args argsA argsB 0 ⟨[], 0⟩ with
  | error reason => rfl
  | ok tally =>
    dsimp only
    rw [if_neg (not_not.mpr sameNamed)]
    rfl

theorem compareAll_cons (wording : Wording) (a b : Term) (restA restB : List Term) (i : Nat)
    (tally : Tally) : compareAll host registry wording (a :: restA) (b :: restB) i tally =
      (tally.take wording i (compareTerms host registry a b)).bind
        (compareAll host registry wording restA restB (i + 1)) := by
  rw [compareAll]
  cases tally.take wording i (compareTerms host registry a b) <;> rfl

theorem compareNamed_cons (key : String) (a b : Term) (restA restB : List (String × Term))
    (i : Nat) (tally : Tally) :
    compareNamed host registry ((key, a) :: restA) ((key, b) :: restB) i tally =
      (tally.take .named i (compareTerms host registry a b)).bind
        (compareNamed host registry restA restB (i + 1)) := by
  rw [compareNamed, if_neg (not_not.mpr rfl)]
  cases tally.take .named i (compareTerms host registry a b) <;> rfl

mutual

theorem compareTerms_tells : ∀ a b : Term, Tells (compareTerms host registry a b)
    (a.Matches registry Term.SameKind b) (a.Matches registry (· = ·) b) (a.noticed b)
  | .var nameA, .var nameB => by
    have isAgree : Term.var nameA = Term.var nameB ↔ nameA = nameB := Term.var.injEq .. ▸ Iff.rfl
    rw [compareTerms]
    exact tells_leaf trivial isAgree (bne_leaf isAgree) _ _
  | .ent entityA, .ent entityB => by
    have isAgree : Term.ent entityA = Term.ent entityB ↔ entityA = entityB :=
      Term.ent.injEq .. ▸ Iff.rfl
    rw [compareTerms]
    exact tells_leaf trivial isAgree (bne_leaf isAgree) _ _
  | .lit a, .lit b => by
    have isAgree : Term.lit a = Term.lit b ↔ litEq a b = true := by
      rw [litEq_eq, decide_eq_true_eq, Term.lit.injEq]
    rw [compareTerms]
    have isNoticed : (Term.lit a).noticed (.lit b) = !decide (litEq a b = true) :=
      bne_leaf isAgree
    rw [isNoticed]
    split_ifs with isSame sameTyped
    · rw [decide_eq_true isSame]
      exact tells_exact (sameType_of_litEq isSame) (isAgree.mpr isSame)
    · rw [decide_eq_false isSame]
      exact tells_wrongValues sameTyped (fun agrees => isSame (isAgree.mp agrees)) _ _
    · exact tells_different _ sameTyped (fun agrees => isSame (isAgree.mp agrees)) _
  | .compound a, .compound b => by
    rw [compareTerms]
    exact (comparePredicates_concludes a b).tells
  | .list a, .list b => by
    by_cases sameLength : a.length = b.length
    · rw [compareTerms_list host registry sameLength]
      exact (compareAll_counted a b .items 0 ⟨[], 0⟩ sameLength).concludes.tells
    · have notMatches : ∀ {leaf : Term → Term → Prop},
          ¬ (Term.list a).Matches registry leaf (.list b) :=
        fun matches_ => sameLength (length_of_matchesAll matches_)
      rw [compareTerms, if_pos sameLength]
      exact tells_different _ notMatches notMatches _
  | .var _, .ent _ | .var _, .lit _ | .var _, .compound _ | .var _, .list _
  | .ent _, .var _ | .ent _, .lit _ | .ent _, .compound _ | .ent _, .list _
  | .lit _, .var _ | .lit _, .ent _ | .lit _, .compound _ | .lit _, .list _
  | .compound _, .var _ | .compound _, .ent _ | .compound _, .lit _ | .compound _, .list _
  | .list _, .var _ | .list _, .ent _ | .list _, .lit _ | .list _, .compound _ =>
    tells_different _ id nofun _
termination_by structural a => a

theorem comparePredicates_concludes : ∀ a b : Predicate,
    Concludes (a.SameShape registry b) (a.Agrees registry b) (a.wrongArgs b)
      (comparePredicates host registry a b)
  | ⟨headA, argsA, namedA⟩, ⟨headB, argsB, namedB⟩ => by
    by_cases sameName : registry.resolvedName headA = registry.resolvedName headB
    · by_cases sameArgs : argsA.length = argsB.length
      · have args := compareAll_counted argsA argsB .args 0 ⟨[], 0⟩ sameArgs
        by_cases sameNamed : namedA.length = namedB.length
        · rw [comparePredicates_same host registry sameName sameArgs sameNamed]
          have both := args.bind fun later => compareNamed_counted namedA namedB 0 later sameNamed
          have isMatches : ∀ {leaf : Term → Term → Prop},
              (⟨headA, argsA, namedA⟩ : Predicate).Matches registry leaf
                  ⟨headB, argsB, namedB⟩ =
                (Term.MatchesAll registry leaf argsA argsB ∧
                  Term.MatchesNamed registry leaf namedA namedB) :=
            propext (and_iff_right sameName)
          rw [Predicate.SameShape, Predicate.Agrees, isMatches, isMatches]
          exact both.concludes
        · have notMatches : ∀ {leaf : Term → Term → Prop},
              ¬ (⟨headA, argsA, namedA⟩ : Predicate).Matches registry leaf
                ⟨headB, argsB, namedB⟩ :=
            fun matches_ => sameNamed (length_of_matchesNamed matches_.2.2)
          rw [comparePredicates, compareHeads_of_eq sameName]
          dsimp only
          rw [if_neg (not_not.mpr sameArgs)]
          cases compareAll host registry .args argsA argsB 0 ⟨[], 0⟩ with
          | error reason => exact .different notMatches notMatches _
          | ok tally =>
            dsimp only
            rw [if_pos sameNamed]
            exact .different notMatches notMatches _
      · have notMatches : ∀ {leaf : Term → Term → Prop},
            ¬ (⟨headA, argsA, namedA⟩ : Predicate).Matches registry leaf ⟨headB, argsB, namedB⟩ :=
          fun matches_ => sameArgs (length_of_matchesAll matches_.2.1)
        rw [comparePredicates, compareHeads_of_eq sameName]
        dsimp only
        rw [if_pos sameArgs]
        exact .different notMatches notMatches _
    · have notMatches : ∀ {leaf : Term → Term → Prop},
          ¬ (⟨headA, argsA, namedA⟩ : Predicate).Matches registry leaf ⟨headB, argsB, namedB⟩ :=
        fun matches_ => sameName matches_.1
      rw [comparePredicates]
      rcases compareHeads_of_ne sameName with ⟨kindA, kindB, isHead⟩ | isHead
      · rw [isHead]
        exact .different notMatches notMatches _
      · rw [isHead]
        exact .different notMatches notMatches _
termination_by structural a => a

theorem compareAll_counted : ∀ (a b : List Term) (wording : Wording) (i : Nat) (tally : Tally),
    a.length = b.length → Counted (compareAll host registry wording a b i tally) tally
      (Term.MatchesAll registry Term.SameKind a b) (Term.MatchesAll registry (· = ·) a b)
      (Term.wrongIn a b)
  | [], [], _, _, tally, _ => counted_ok tally
  | a :: restA, b :: restB, wording, i, tally, isLength => by
    rw [compareAll_cons]
    exact ((compareTerms_tells a b).take tally wording i).bind fun later =>
      compareAll_counted restA restB wording (i + 1) later (Nat.succ.inj isLength)
  | [], _ :: _, _, _, _, isLength | _ :: _, [], _, _, _, isLength => nomatch isLength
termination_by structural a => a

theorem compareNamed_counted : ∀ (a b : List (String × Term)) (i : Nat) (tally : Tally),
    a.length = b.length → Counted (compareNamed host registry a b i tally) tally
      (Term.MatchesNamed registry Term.SameKind a b) (Term.MatchesNamed registry (· = ·) a b)
      (Term.wrongNamed a b)
  | [], [], _, tally, _ => counted_ok tally
  | (keyA, a) :: restA, (keyB, b) :: restB, i, tally, isLength => by
    by_cases sameKey : keyA = keyB
    · subst sameKey
      rw [compareNamed_cons]
      have counted := ((compareTerms_tells a b).take tally .named i).bind fun later =>
        compareNamed_counted restA restB (i + 1) later (Nat.succ.inj isLength)
      simp only [Term.MatchesNamed, true_and]
      exact counted
    · rw [compareNamed, if_pos sameKey]
      exact counted_error (fun isShape => sameKey isShape.1) (fun agrees => sameKey agrees.1) _ _
  | [], _ :: _, _, _, isLength | _ :: _, [], _, _, isLength => nomatch isLength
termination_by structural a => a

end

end Compare

end SemEquiv

/-! ### Symmetry -/

section Symmetry

variable {registry : MorphemeRegistry} {leaf : Term → Term → Prop}

mutual

theorem Predicate.Matches.symm (symm : ∀ a b, leaf a b → leaf b a) :
    ∀ a b : Predicate, a.Matches registry leaf b → b.Matches registry leaf a
  | ⟨_, argsA, namedA⟩, ⟨_, argsB, namedB⟩ => fun ⟨sameName, args, named⟩ =>
    ⟨sameName.symm, Term.MatchesAll.symm symm argsA argsB args,
      Term.MatchesNamed.symm symm namedA namedB named⟩
termination_by structural a => a

theorem Term.Matches.symm (symm : ∀ a b, leaf a b → leaf b a) :
    ∀ a b : Term, a.Matches registry leaf b → b.Matches registry leaf a
  | .compound a, .compound b => Predicate.Matches.symm symm a b
  | .list a, .list b => Term.MatchesAll.symm symm a b
  | .var _, .var _ | .ent _, .ent _ | .lit _, .lit _ => symm _ _
  | .var _, .ent _ | .var _, .lit _ | .var _, .compound _ | .var _, .list _
  | .ent _, .var _ | .ent _, .lit _ | .ent _, .compound _ | .ent _, .list _
  | .lit _, .var _ | .lit _, .ent _ | .lit _, .compound _ | .lit _, .list _
  | .compound _, .var _ | .compound _, .ent _ | .compound _, .lit _ | .compound _, .list _
  | .list _, .var _ | .list _, .ent _ | .list _, .lit _ | .list _, .compound _ => id
termination_by structural a => a

theorem Term.MatchesAll.symm (symm : ∀ a b, leaf a b → leaf b a) :
    ∀ a b : List Term, Term.MatchesAll registry leaf a b → Term.MatchesAll registry leaf b a
  | [], [] => id
  | a :: restA, b :: restB => fun ⟨here, later⟩ =>
    ⟨Term.Matches.symm symm a b here, Term.MatchesAll.symm symm restA restB later⟩
  | [], _ :: _ | _ :: _, [] => id
termination_by structural a => a

theorem Term.MatchesNamed.symm (symm : ∀ a b, leaf a b → leaf b a) :
    ∀ a b : List (String × Term),
      Term.MatchesNamed registry leaf a b → Term.MatchesNamed registry leaf b a
  | [], [] => id
  | (_, a) :: restA, (_, b) :: restB => fun ⟨sameKey, here, later⟩ =>
    ⟨sameKey.symm, Term.Matches.symm symm a b here, Term.MatchesNamed.symm symm restA restB later⟩
  | [], _ :: _ | _ :: _, [] => id
termination_by structural a => a

end

mutual

theorem Predicate.wrongArgs_comm : ∀ a b : Predicate, a.wrongArgs b = b.wrongArgs a
  | ⟨_, argsA, namedA⟩, ⟨_, argsB, namedB⟩ =>
    congrArg₂ (· + ·) (Term.wrongIn_comm argsA argsB) (Term.wrongNamed_comm namedA namedB)
termination_by structural a => a

theorem Term.noticed_comm : ∀ a b : Term, a.noticed b = b.noticed a
  | .compound a, .compound b => congrArg showsIn32 (Predicate.wrongArgs_comm a b)
  | .list a, .list b => congrArg showsIn32 (Term.wrongIn_comm a b)
  | .var _, .var _ | .ent _, .ent _ | .lit _, .lit _
  | .var _, .ent _ | .var _, .lit _ | .var _, .compound _ | .var _, .list _
  | .ent _, .var _ | .ent _, .lit _ | .ent _, .compound _ | .ent _, .list _
  | .lit _, .var _ | .lit _, .ent _ | .lit _, .compound _ | .lit _, .list _
  | .compound _, .var _ | .compound _, .ent _ | .compound _, .lit _ | .compound _, .list _
  | .list _, .var _ | .list _, .ent _ | .list _, .lit _ | .list _, .compound _ => bne_comm
termination_by structural a => a

theorem Term.wrongIn_comm : ∀ a b : List Term, Term.wrongIn a b = Term.wrongIn b a
  | a :: restA, b :: restB =>
    congrArg₂ (fun noticed rest => Bool.toNat noticed + rest) (Term.noticed_comm a b)
      (Term.wrongIn_comm restA restB)
  | [], [] | [], _ :: _ | _ :: _, [] => rfl
termination_by structural a => a

theorem Term.wrongNamed_comm : ∀ a b : List (String × Term),
    Term.wrongNamed a b = Term.wrongNamed b a
  | (_, a) :: restA, (_, b) :: restB =>
    congrArg₂ (fun noticed rest => Bool.toNat noticed + rest) (Term.noticed_comm a b)
      (Term.wrongNamed_comm restA restB)
  | [], [] | [], _ :: _ | _ :: _, [] => rfl
termination_by structural a => a

end

end Symmetry

/-! ### Leaves -/

section Leaves

variable {registry : MorphemeRegistry}

mutual

theorem Predicate.leafDiffers_iff : ∀ a b : Predicate, a.Matches registry Term.SameKind b →
    (a.LeafDiffers b ↔ ¬ a.Matches registry (· = ·) b)
  | ⟨_, argsA, namedA⟩, ⟨_, argsB, namedB⟩ => fun ⟨sameName, args, named⟩ => by
    rw [Predicate.LeafDiffers, Term.leafDiffersIn_iff argsA argsB args,
      Term.leafDiffersNamed_iff namedA namedB named, Predicate.Matches, and_iff_right sameName,
      not_and_or]
termination_by structural a => a

theorem Term.leafDiffers_iff : ∀ a b : Term, a.Matches registry Term.SameKind b →
    (a.LeafDiffers b ↔ ¬ a.Matches registry (· = ·) b)
  | .compound a, .compound b => Predicate.leafDiffers_iff a b
  | .list a, .list b => Term.leafDiffersIn_iff a b
  | .var _, .var _ | .ent _, .ent _ | .lit _, .lit _ => fun _ => Iff.rfl
  | .var _, .ent _ | .var _, .lit _ | .var _, .compound _ | .var _, .list _
  | .ent _, .var _ | .ent _, .lit _ | .ent _, .compound _ | .ent _, .list _
  | .lit _, .var _ | .lit _, .ent _ | .lit _, .compound _ | .lit _, .list _
  | .compound _, .var _ | .compound _, .ent _ | .compound _, .lit _ | .compound _, .list _
  | .list _, .var _ | .list _, .ent _ | .list _, .lit _ | .list _, .compound _ => False.elim
termination_by structural a => a

theorem Term.leafDiffersIn_iff : ∀ a b : List Term, Term.MatchesAll registry Term.SameKind a b →
    (Term.LeafDiffersIn a b ↔ ¬ Term.MatchesAll registry (· = ·) a b)
  | [], [] => fun _ => iff_of_false id (not_not.mpr trivial)
  | a :: restA, b :: restB => fun ⟨here, later⟩ => by
    rw [Term.LeafDiffersIn, Term.leafDiffers_iff a b here,
      Term.leafDiffersIn_iff restA restB later, Term.MatchesAll, not_and_or]
  | [], _ :: _ | _ :: _, [] => False.elim
termination_by structural a => a

theorem Term.leafDiffersNamed_iff : ∀ a b : List (String × Term),
    Term.MatchesNamed registry Term.SameKind a b →
      (Term.LeafDiffersNamed a b ↔ ¬ Term.MatchesNamed registry (· = ·) a b)
  | [], [] => fun _ => iff_of_false id (not_not.mpr trivial)
  | (_, a) :: restA, (_, b) :: restB => fun ⟨sameKey, here, later⟩ => by
    rw [Term.LeafDiffersNamed, Term.leafDiffers_iff a b here,
      Term.leafDiffersNamed_iff restA restB later, Term.MatchesNamed, and_iff_right sameKey,
      not_and_or]
  | [], _ :: _ | _ :: _, [] => False.elim
termination_by structural a => a

end

end Leaves

/-! ### Few values -/

mutual

/-- Every list of arguments or items in a predicate is shorter than `2 ^ 32`. -/
def Predicate.Narrow : Predicate → Prop
  | ⟨_, args, named⟩ =>
    args.length + named.length < 2 ^ 32 ∧ Term.NarrowAll args ∧ Term.NarrowNamed named

/-- Every list of arguments or items in a term is shorter than `2 ^ 32`. -/
def Term.Narrow : Term → Prop
  | .compound pred => pred.Narrow
  | .list items => items.length < 2 ^ 32 ∧ Term.NarrowAll items
  | .var _ | .ent _ | .lit _ => True

/-- Every list in some terms is shorter than `2 ^ 32`. -/
def Term.NarrowAll : List Term → Prop
  | [] => True
  | term :: rest => term.Narrow ∧ Term.NarrowAll rest

/-- Every list in some named arguments is shorter than `2 ^ 32`. -/
def Term.NarrowNamed : List (String × Term) → Prop
  | [] => True
  | (_, term) :: rest => term.Narrow ∧ Term.NarrowNamed rest

end

theorem Term.wrongIn_le : ∀ a b : List Term, Term.wrongIn a b ≤ a.length
  | a :: restA, b :: restB => by
    rw [Term.wrongIn, List.length_cons, Nat.add_comm]
    exact Nat.add_le_add (Term.wrongIn_le restA restB) (Bool.toNat_le _)
  | [], [] | [], _ :: _ | _ :: _, [] => Nat.zero_le _

theorem Term.wrongNamed_le : ∀ a b : List (String × Term), Term.wrongNamed a b ≤ a.length
  | (_, a) :: restA, (_, b) :: restB => by
    rw [Term.wrongNamed, List.length_cons, Nat.add_comm]
    exact Nat.add_le_add (Term.wrongNamed_le restA restB) (Bool.toNat_le _)
  | [], [] | [], _ :: _ | _ :: _, [] => Nat.zero_le _

theorem showsIn32_of_lt {count : Nat} (positive : 0 < count) (few : count < 2 ^ 32) :
    showsIn32 count = true := by
  rw [showsIn32, Nat.mod_eq_of_lt few, bne_iff_ne]
  exact positive.ne'

mutual

/-- The wrong values of a narrow predicate are noticed. -/
theorem Predicate.noticed_of_narrow : ∀ a b : Predicate, a.Narrow → a.LeafDiffers b →
    showsIn32 (a.wrongArgs b) = true
  | ⟨_, argsA, namedA⟩, ⟨_, argsB, namedB⟩ => fun ⟨few, narrow, narrowNamed⟩ differs => by
    have args := Term.wrongIn_le argsA argsB
    have named := Term.wrongNamed_le namedA namedB
    rw [Predicate.wrongArgs]
    refine showsIn32_of_lt ?_ (by omega)
    rcases differs with differs | differs
    · have positive := Term.wrongIn_pos argsA argsB narrow differs
      omega
    · have positive := Term.wrongNamed_pos namedA namedB narrowNamed differs
      omega
termination_by structural a => a

theorem Term.noticed_of_narrow : ∀ a b : Term, a.Narrow → a.LeafDiffers b → a.noticed b = true
  | .compound a, .compound b => Predicate.noticed_of_narrow a b
  | .list a, .list b => fun ⟨few, narrow⟩ differs =>
    showsIn32_of_lt (Term.wrongIn_pos a b narrow differs) ((Term.wrongIn_le a b).trans_lt few)
  | .var _, .var _ | .ent _, .ent _ | .lit _, .lit _
  | .var _, .ent _ | .var _, .lit _ | .var _, .compound _ | .var _, .list _
  | .ent _, .var _ | .ent _, .lit _ | .ent _, .compound _ | .ent _, .list _
  | .lit _, .var _ | .lit _, .ent _ | .lit _, .compound _ | .lit _, .list _
  | .compound _, .var _ | .compound _, .ent _ | .compound _, .lit _ | .compound _, .list _
  | .list _, .var _ | .list _, .ent _ | .list _, .lit _ | .list _, .compound _ =>
    fun _ => bne_iff_ne.mpr
termination_by structural a => a

theorem Term.wrongIn_pos : ∀ a b : List Term, Term.NarrowAll a → Term.LeafDiffersIn a b →
    0 < Term.wrongIn a b
  | a :: restA, b :: restB => fun ⟨narrow, later⟩ differs => by
    rw [Term.wrongIn]
    rcases differs with differs | differs
    · rw [Term.noticed_of_narrow a b narrow differs]
      exact Nat.add_pos_left Nat.one_pos _
    · exact Nat.add_pos_right _ (Term.wrongIn_pos restA restB later differs)
  | [], [] | [], _ :: _ | _ :: _, [] => fun _ => False.elim
termination_by structural a => a

theorem Term.wrongNamed_pos : ∀ a b : List (String × Term), Term.NarrowNamed a →
    Term.LeafDiffersNamed a b → 0 < Term.wrongNamed a b
  | (_, a) :: restA, (_, b) :: restB => fun ⟨narrow, later⟩ differs => by
    rw [Term.wrongNamed]
    rcases differs with differs | differs
    · rw [Term.noticed_of_narrow a b narrow differs]
      exact Nat.add_pos_left Nat.one_pos _
    · exact Nat.add_pos_right _ (Term.wrongNamed_pos restA restB later differs)
  | [], [] | [], _ :: _ | _ :: _, [] => fun _ => False.elim
termination_by structural a => a

end

/-! ### Nodes -/

/-- Two nodes agree in everything but their predicates, identifiers and notes. -/
structure MetadataAgrees (a b : Node ℚ) : Prop where
  validity : a.validity = b.validity
  provenance : a.provenance = b.provenance
  confidence : |a.confidence.value - b.confidence.value| ≤ 1 / 10 ^ 6
  authority : |a.authority.value - b.authority.value| ≤ 1 / 10 ^ 6
  permissions : a.permissions = b.permissions
  deps : a.deps = b.deps
  status : a.status = b.status

namespace SemEquiv

theorem noteIf_eq_nil_iff {differs : Bool} {text : String} :
    noteIf differs text = [] ↔ differs = false := by
  cases differs <;> simp [noteIf]

theorem apart_eq_false_iff (a b : ℚ) : apart a b = false ↔ |a - b| ≤ 1 / 10 ^ 6 := by
  have isAbs : F32.abs (F32.sub a b) = |a - b| := by
    show (if a - b < 0 then -(a - b) else a - b) = |a - b|
    split_ifs with negative
    · exact (abs_of_neg negative).symm
    · exact (abs_of_nonneg (not_lt.mp negative)).symm
  have isEps : (f32Eps : ℚ) = 1 / 10 ^ 6 := by
    show mkRat 1 (10 ^ 6) = 1 / 10 ^ 6
    norm_num [Rat.mkRat_eq_div]
  rw [apart, isAbs, isEps]
  show decide _ = false ↔ _
  rw [decide_eq_false_iff_not, not_lt]

theorem collectMetadataDiffs_eq_nil_iff (host : Host ℚ) (a b : Node ℚ) :
    collectMetadataDiffs host a b = [] ↔ MetadataAgrees a b := by
  simp only [collectMetadataDiffs, List.append_eq_nil_iff, noteIf_eq_nil_iff, bne_eq_false_iff_eq,
    apart_eq_false_iff]
  constructor
  · rintro ⟨⟨⟨⟨⟨⟨validity, provenance⟩, confidence⟩, authority⟩, permissions⟩, deps⟩, status⟩
    exact ⟨validity, provenance, confidence, authority, permissions, deps, status⟩
  · rintro ⟨validity, provenance, confidence, authority, permissions, deps, status⟩
    exact ⟨⟨⟨⟨⟨⟨validity, provenance⟩, confidence⟩, authority⟩, permissions⟩, deps⟩, status⟩

section Nodes

variable (host : Host ℚ) (registry : MorphemeRegistry) (a b : Node ℚ)

/-- The score for a number of wrong values that is noticed. -/
def wrongScore (count : Nat) : ℚ :=
  (EquivResult.wrongValues (Tally.conclude ⟨[], UInt32.ofNat count⟩ : EquivResult ℚ).score []).score

theorem wrongScore_range (count : Nat) : 0 ≤ wrongScore count ∧ wrongScore count ≤ 3 / 10 := by
  have isLimit : (F32.lit 3 1 : ℚ) = 3 / 10 := by
    show mkRat 3 (10 ^ 1) = 3 / 10
    norm_num [Rat.mkRat_eq_div]
  have clamped : ∀ {score : ℚ} (diffs : List String), 0 ≤ score →
      0 ≤ (EquivResult.wrongValues score diffs).score ∧
        (EquivResult.wrongValues score diffs).score ≤ 3 / 10 := by
    intro score diffs nonneg
    show 0 ≤ (if decide (score ≤ F32.lit 3 1) = true then score else F32.lit 3 1) ∧
      (if decide (score ≤ F32.lit 3 1) = true then score else F32.lit 3 1) ≤ 3 / 10
    rw [isLimit]
    split_ifs with small
    · exact ⟨nonneg, of_decide_eq_true small⟩
    · norm_num
  have nonneg : 0 ≤ (Tally.conclude ⟨[], UInt32.ofNat count⟩ : EquivResult ℚ).score := by
    unfold Tally.conclude
    split_ifs
    · refine (clamped _ ?_).1
      show 0 ≤ if _ ≤ mkRat 0 (10 ^ 0) then mkRat 0 (10 ^ 0) else _
      split_ifs with negative
      · norm_num
      · exact (not_le.mp negative).le
    · show (0 : ℚ) ≤ mkRat 1 (10 ^ 0)
      norm_num
    · show (0 : ℚ) ≤ mkRat 85 (10 ^ 2)
      norm_num [Rat.mkRat_eq_div]
  exact clamped _ nonneg

/-- Nodes of different shapes. -/
theorem compare_of_not_shape (notShape : ¬ a.predicate.SameShape registry b.predicate) :
    (compare host registry a b).level = .different ∧ (compare host registry a b).score = 0 := by
  have concludes := comparePredicates_concludes host registry a.predicate b.predicate
  unfold compare
  generalize comparePredicates host registry a.predicate b.predicate = result at concludes ⊢
  cases concludes with
  | different _ _ reason => exact ⟨rfl, by rfl⟩
  | counted isShape => exact absurd isShape notShape

/-- Nodes of one shape in which wrong values are noticed. -/
theorem compare_of_noticed (isShape : a.predicate.SameShape registry b.predicate)
    (isNoticed : a.predicate.noticed b.predicate = true) :
    (compare host registry a b).level = .wrongValues ∧
      (compare host registry a b).score = wrongScore (a.predicate.wrongArgs b.predicate) := by
  have concludes := comparePredicates_concludes host registry a.predicate b.predicate
  have positive := (showsIn32_iff _).mp isNoticed
  unfold compare
  generalize comparePredicates host registry a.predicate b.predicate = result at concludes ⊢
  cases concludes with
  | different notShape => exact absurd isShape notShape
  | counted _ _ diffs =>
    rw [wrongScore]
    unfold Tally.conclude
    simp only [if_pos positive]
    exact ⟨rfl, rfl⟩

/-- Nodes whose predicates agree. -/
theorem compare_of_agrees (agrees : a.predicate.Agrees registry b.predicate) :
    compare host registry a b =
      if collectMetadataDiffs host a b = [] then .exact
      else .metadataDrift (collectMetadataDiffs host a b) := by
  have concludes := comparePredicates_concludes host registry a.predicate b.predicate
  have isExact := concludes.tells.exact.mpr agrees
  unfold compare
  simp only [isExact]
  generalize collectMetadataDiffs host a b = metadata
  cases metadata <;> rfl

/-- Nodes of one shape that differ, where no wrong value is noticed. -/
theorem compare_of_unnoticed (isShape : a.predicate.SameShape registry b.predicate)
    (notAgree : ¬ a.predicate.Agrees registry b.predicate)
    (notNoticed : a.predicate.noticed b.predicate = false) :
    (compare host registry a b).level = .metadataDrift ∧
      (compare host registry a b).score = F32.lit 85 2 := by
  have concludes := comparePredicates_concludes host registry a.predicate b.predicate
  have notPositive : ¬ 0 < UInt32.ofNat (a.predicate.wrongArgs b.predicate) := fun positive =>
    Bool.eq_false_iff.mp notNoticed ((showsIn32_iff _).mpr positive)
  unfold compare
  generalize comparePredicates host registry a.predicate b.predicate = result at concludes ⊢
  cases concludes with
  | different notShape => exact absurd isShape notShape
  | counted _ _ diffs isDiffs =>
    have notEmpty : diffs ≠ [] := fun isNil => notAgree (isDiffs.mp isNil)
    unfold Tally.conclude
    simp only [if_neg notPositive, List.isEmpty_iff, notEmpty, if_false, EquivResult.metadataDrift,
      if_true, List.append_eq_nil_iff, false_and]
    exact ⟨trivial, trivial⟩

/-- The levels and scores of two nodes mean what they say. -/
structure Classified : Prop where
  exact : (compare host registry a b).level = .exact ↔
    a.predicate.Agrees registry b.predicate ∧ MetadataAgrees a b
  metadataDrift : (compare host registry a b).level = .metadataDrift ↔
    a.predicate.Agrees registry b.predicate ∧ ¬ MetadataAgrees a b
  wrongValues : (compare host registry a b).level = .wrongValues ↔
    a.predicate.SameShape registry b.predicate ∧ a.predicate.LeafDiffers b.predicate
  wrongScore : (compare host registry a b).level = .wrongValues →
    0 ≤ (compare host registry a b).score ∧ (compare host registry a b).score ≤ 3 / 10
  different : (compare host registry a b).level = .different ↔
    ¬ a.predicate.SameShape registry b.predicate
  levelSymmetric : (compare host registry a b).level = (compare host registry b a).level
  scoreSymmetric : (compare host registry a b).score = (compare host registry b a).score

variable {host registry a b}

theorem shape_of_agrees (agrees : a.predicate.Agrees registry b.predicate) :
    a.predicate.SameShape registry b.predicate :=
  (comparePredicates_concludes (default : Host ℚ) registry a.predicate b.predicate).tells.shape
    agrees

theorem sameType_comm (a b : Literal) : sameType a b = sameType b a := by
  cases a <;> cases b <;> rfl

theorem sameKind_symm (a b : Term) : a.SameKind b → b.SameKind a := by
  cases a <;> cases b
  case lit.lit a b => exact (sameType_comm b a).trans
  all_goals exact id

theorem metadataAgrees_comm : MetadataAgrees a b ↔ MetadataAgrees b a := by
  have swap : ∀ {a b : Node ℚ}, MetadataAgrees a b → MetadataAgrees b a := fun agrees =>
    { validity := agrees.validity.symm
      provenance := agrees.provenance.symm
      confidence := by
        rw [abs_sub_comm]
        exact agrees.confidence
      authority := by
        rw [abs_sub_comm]
        exact agrees.authority
      permissions := agrees.permissions.symm
      deps := agrees.deps.symm
      status := agrees.status.symm }
  exact ⟨swap, swap⟩

/-- Two nodes whose predicates have different shapes are classified. -/
theorem classified_of_not_shape (notShape : ¬ a.predicate.SameShape registry b.predicate) :
    Classified host registry a b := by
  obtain ⟨isLevel, isScore⟩ := compare_of_not_shape host registry a b notShape
  obtain ⟨isLevel', isScore'⟩ := compare_of_not_shape host registry b a
    fun isShape => notShape (Predicate.Matches.symm sameKind_symm _ _ isShape)
  refine ⟨?_, ?_, ?_, ?_, ?_, isLevel.trans isLevel'.symm, isScore.trans isScore'.symm⟩
  · rw [isLevel]
    exact iff_of_false nofun fun both => notShape (shape_of_agrees both.1)
  · rw [isLevel]
    exact iff_of_false nofun fun both => notShape (shape_of_agrees both.1)
  · rw [isLevel]
    exact iff_of_false nofun fun both => notShape both.1
  · rw [isLevel]
    exact nofun
  · exact iff_of_true isLevel notShape

/-- Two nodes whose predicates agree are classified. -/
theorem classified_of_agrees (agrees : a.predicate.Agrees registry b.predicate) :
    Classified host registry a b := by
  have isShape := shape_of_agrees agrees
  have noLeaf : ¬ a.predicate.LeafDiffers b.predicate := fun differs =>
    (Predicate.leafDiffers_iff _ _ isShape).mp differs agrees
  have isResult := compare_of_agrees host registry a b agrees
  have isResult' := compare_of_agrees host registry b a
    (Predicate.Matches.symm (fun _ _ => Eq.symm) _ _ agrees)
  by_cases metadata : MetadataAgrees a b
  · rw [if_pos ((collectMetadataDiffs_eq_nil_iff host a b).mpr metadata)] at isResult
    rw [if_pos ((collectMetadataDiffs_eq_nil_iff host b a).mpr (metadataAgrees_comm.mp metadata))]
      at isResult'
    refine ⟨?_, ?_, ?_, ?_, ?_, ?_, ?_⟩
    · rw [isResult]
      exact iff_of_true rfl ⟨agrees, metadata⟩
    · rw [isResult]
      exact iff_of_false nofun fun both => both.2 metadata
    · rw [isResult]
      exact iff_of_false nofun fun both => noLeaf both.2
    · rw [isResult]
      exact nofun
    · rw [isResult]
      exact iff_of_false nofun (not_not.mpr isShape)
    · rw [isResult, isResult']
    · rw [isResult, isResult']
  · have notNil := fun isNil => metadata ((collectMetadataDiffs_eq_nil_iff host a b).mp isNil)
    have notNil' := fun isNil =>
      metadata (metadataAgrees_comm.mp ((collectMetadataDiffs_eq_nil_iff host b a).mp isNil))
    rw [if_neg notNil] at isResult
    rw [if_neg notNil'] at isResult'
    refine ⟨?_, ?_, ?_, ?_, ?_, ?_, ?_⟩
    · rw [isResult]
      exact iff_of_false nofun fun both => metadata both.2
    · rw [isResult]
      exact iff_of_true rfl ⟨agrees, metadata⟩
    · rw [isResult]
      exact iff_of_false nofun fun both => noLeaf both.2
    · rw [isResult]
      exact nofun
    · rw [isResult]
      exact iff_of_false nofun (not_not.mpr isShape)
    · rw [isResult, isResult']
      rfl
    · rw [isResult, isResult']
      rfl

/-- Two nodes of one shape in which wrong values are noticed are classified. -/
theorem classified_of_noticed (isShape : a.predicate.SameShape registry b.predicate)
    (isNoticed : a.predicate.noticed b.predicate = true) : Classified host registry a b := by
  have tells := (comparePredicates_concludes host registry a.predicate b.predicate).tells
  have notAgree : ¬ a.predicate.Agrees registry b.predicate := fun agrees => by
    cases isNoticed.symm.trans (tells.quiet agrees)
  have sameCount := Predicate.wrongArgs_comm a.predicate b.predicate
  have isNoticed' : b.predicate.noticed a.predicate = true := by
    rw [Predicate.noticed, ← sameCount]
    exact isNoticed
  obtain ⟨isLevel, isScore⟩ := compare_of_noticed host registry a b isShape isNoticed
  obtain ⟨isLevel', isScore'⟩ := compare_of_noticed host registry b a
    (Predicate.Matches.symm sameKind_symm _ _ isShape) isNoticed'
  refine ⟨?_, ?_, ?_, fun _ => ?_, ?_, isLevel.trans isLevel'.symm, ?_⟩
  · rw [isLevel]
    exact iff_of_false nofun fun both => notAgree both.1
  · rw [isLevel]
    exact iff_of_false nofun fun both => notAgree both.1
  · exact iff_of_true isLevel ⟨isShape, (Predicate.leafDiffers_iff _ _ isShape).mpr notAgree⟩
  · rw [isScore]
    exact wrongScore_range _
  · rw [isLevel]
    exact iff_of_false nofun (not_not.mpr isShape)
  · rw [isScore, isScore', sameCount]

/-- Two nodes of one shape are not classified where a leaf differs and no wrong value is
noticed. -/
theorem not_classified_of_unnoticed (isShape : a.predicate.SameShape registry b.predicate)
    (differs : a.predicate.LeafDiffers b.predicate)
    (notNoticed : a.predicate.noticed b.predicate = false) : ¬ Classified host registry a b := by
  intro classified
  have notAgree := (Predicate.leafDiffers_iff _ _ isShape).mp differs
  obtain ⟨isLevel, _⟩ := compare_of_unnoticed host registry a b isShape notAgree notNoticed
  have isWrong := classified.wrongValues.mpr ⟨isShape, differs⟩
  rw [isLevel] at isWrong
  cases isWrong

/-- Two nodes are classified where wrong values in predicates of one shape are noticed. -/
theorem classified_of_notices (notices : a.predicate.SameShape registry b.predicate →
    a.predicate.LeafDiffers b.predicate → a.predicate.noticed b.predicate = true) :
    Classified host registry a b := by
  by_cases isShape : a.predicate.SameShape registry b.predicate
  · by_cases agrees : a.predicate.Agrees registry b.predicate
    · exact classified_of_agrees agrees
    · exact classified_of_noticed isShape
        (notices isShape ((Predicate.leafDiffers_iff _ _ isShape).mpr agrees))
  · exact classified_of_not_shape isShape

/-- Two nodes are classified exactly unless their predicates have the same shape and differ, and
their wrong values are not noticed. -/
theorem compare_classified_iff (host : Host ℚ) (registry : MorphemeRegistry) (a b : Node ℚ) :
    Classified host registry a b ↔
      (a.predicate.SameShape registry b.predicate → a.predicate.LeafDiffers b.predicate →
        a.predicate.noticed b.predicate = true) := by
  refine ⟨fun classified isShape differs => ?_, classified_of_notices⟩
  by_contra notNoticed
  exact not_classified_of_unnoticed isShape differs (Bool.eq_false_iff.mpr notNoticed) classified

end Nodes

/-- Nodes in which no list of values is as long as `2 ^ 32` are classified. -/
theorem classified_of_narrow (host : Host ℚ) (registry : MorphemeRegistry) {a : Node ℚ}
    (narrow : a.predicate.Narrow) (b : Node ℚ) : Classified host registry a b :=
  classified_of_notices fun _ differs => Predicate.noticed_of_narrow _ _ narrow differs

/-! ### Many wrong values -/

/-- A predicate with that many arguments, each of them an entity. -/
def repeating (count : Nat) (entity : String) : Predicate :=
  ⟨.name "tagged", List.replicate count (.ent ⟨entity⟩), []⟩

theorem matchesAll_replicate (registry : MorphemeRegistry) {leaf : Term → Term → Prop} {a b : Term}
    (matches_ : a.Matches registry leaf b) (count : Nat) :
    Term.MatchesAll registry leaf (List.replicate count a) (List.replicate count b) := by
  induction count with
  | zero => exact trivial
  | succ count inductionHypothesis => exact ⟨matches_, inductionHypothesis⟩

theorem wrongIn_replicate {a b : Term} (isNoticed : a.noticed b = true) (count : Nat) :
    Term.wrongIn (List.replicate count a) (List.replicate count b) = count := by
  induction count with
  | zero => rfl
  | succ count inductionHypothesis =>
    rw [List.replicate_succ, List.replicate_succ, Term.wrongIn, isNoticed, inductionHypothesis,
      Bool.toNat_true, Nat.add_comm]

/-- A multiple of `2 ^ 32` wrong arguments is not noticed. -/
theorem not_classified_repeating {count : Nat} (positive : 0 < count) (wraps : 2 ^ 32 ∣ count)
    (host : Host ℚ) (registry : MorphemeRegistry) :
    ¬ Classified host registry (Node.new "n1" (repeating count "ACME"))
      (Node.new "n1" (repeating count "BIG-CORP")) := by
  have isNoticed : (Term.ent ⟨"ACME"⟩).noticed (.ent ⟨"BIG-CORP"⟩) = true := by decide
  have isCount : (repeating count "ACME").wrongArgs (repeating count "BIG-CORP") = count := by
    rw [repeating, repeating, Predicate.wrongArgs, wrongIn_replicate isNoticed]
    rfl
  have sameKind : (Term.ent ⟨"ACME"⟩).Matches registry Term.SameKind (.ent ⟨"BIG-CORP"⟩) :=
    trivial
  have isShape : (repeating count "ACME").SameShape registry (repeating count "BIG-CORP") :=
    ⟨rfl, matchesAll_replicate registry sameKind count, trivial⟩
  refine not_classified_of_unnoticed isShape ?_ ?_
  · obtain ⟨more, rfl⟩ := Nat.exists_eq_succ_of_ne_zero positive.ne'
    have differs : Term.ent ⟨"ACME"⟩ ≠ .ent ⟨"BIG-CORP"⟩ := by decide
    exact .inl (.inl differs)
  · show showsIn32 ((repeating count "ACME").wrongArgs (repeating count "BIG-CORP")) = false
    rw [isCount, showsIn32, Nat.mod_eq_zero_of_dvd wraps]
    rfl

/-- Where `2 ^ 32` arguments are wrong, the count of them is zero. -/
theorem not_all_classified : ¬ ∀ (host : Host ℚ) (registry : MorphemeRegistry) (a b : Node ℚ),
    Classified host registry a b := by
  intro every
  have positive : 0 < 2 ^ 32 := by decide
  exact not_classified_repeating positive (Nat.dvd_refl _) default .new (every default .new _ _)

end SemEquiv

end Factum
