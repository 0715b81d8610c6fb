/-
This file is about pattern matching as substitution.

A pattern matches a predicate under a substitution when the two are the same up to
the variables of the pattern, and each variable stands for the same term wherever it
occurs. The matcher collects the terms that face the variables outside of compounds
and refuses a variable that faces two, but a compound it matches on its own, and
forgets what its variables faced. So it answers with the substitution when what faces
a variable inside a compound also faces it outside.
-/

import Factum.Library.Assignments
import Factum.Query

namespace Factum

open Assignments

/-! ### Instances under a substitution -/

mutual

/-- A pattern matches a predicate under a substitution. -/
def Predicate.Instance (subst : String → Option Term) : Predicate → Predicate → Prop
  | ⟨head, args, named⟩, concrete =>
    head = concrete.head ∧ Term.InstanceList subst args concrete.args ∧
      Term.InstanceNamed subst named concrete.named
termination_by structural pattern => pattern

/-- A pattern term matches a term under a substitution. -/
def Term.Instance (subst : String → Option Term) : Term → Term → Prop
  | .var name, concrete => subst name = some concrete
  | .ent entity, concrete => concrete = .ent entity
  | .lit literal, concrete => concrete = .lit literal
  | .compound pred, concrete => ∃ inner, concrete = .compound inner ∧ pred.Instance subst inner
  | .list items, concrete => ∃ inner, concrete = .list inner ∧ Term.InstanceList subst items inner
termination_by structural pattern => pattern

/-- Terms agree in number and one by one. -/
def Term.InstanceList (subst : String → Option Term) : List Term → List Term → Prop
  | [], [] => True
  | pattern :: patterns, concrete :: concretes =>
    pattern.Instance subst concrete ∧ Term.InstanceList subst patterns concretes
  | _, _ => False
termination_by structural pattern => pattern

/-- Each named argument agrees with the concrete one under its key. -/
def Term.InstanceNamed (subst : String → Option Term) :
    List (String × Term) → List (String × Term) → Prop
  | [], _ => True
  | (key, pattern) :: patterns, concretes =>
    (∃ concrete, concretes.find? (·.1 == key) = some concrete ∧
      pattern.Instance subst concrete.2) ∧ Term.InstanceNamed subst patterns concretes
termination_by structural pattern => pattern

end

mutual

/-- The variables of a pattern, at any depth. -/
def Predicate.variables : Predicate → List String
  | ⟨_, args, named⟩ => Term.variablesList args ++ Term.variablesNamed named

/-- The variables of a term. -/
def Term.variables : Term → List String
  | .var name => [name]
  | .ent _ => []
  | .lit _ => []
  | .compound pred => pred.variables
  | .list items => Term.variablesList items

/-- The variables of terms. -/
def Term.variablesList : List Term → List String
  | [] => []
  | term :: rest => term.variables ++ Term.variablesList rest

/-- The variables of named arguments. -/
def Term.variablesNamed : List (String × Term) → List String
  | [] => []
  | (_, term) :: rest => term.variables ++ Term.variablesNamed rest

end

mutual

/-- A pattern all of whose heads are names. -/
def Predicate.HeadsNamed : Predicate → Prop
  | ⟨head, args, named⟩ =>
    (∃ name, head = .name name) ∧ Term.HeadsNamedList args ∧ Term.HeadsNamedNamed named

/-- A term all of whose heads are names. -/
def Term.HeadsNamed : Term → Prop
  | .var _ => True
  | .ent _ => True
  | .lit _ => True
  | .compound pred => pred.HeadsNamed
  | .list items => Term.HeadsNamedList items

/-- Terms all of whose heads are names. -/
def Term.HeadsNamedList : List Term → Prop
  | [] => True
  | term :: rest => term.HeadsNamed ∧ Term.HeadsNamedList rest

/-- Named arguments all of whose heads are names. -/
def Term.HeadsNamedNamed : List (String × Term) → Prop
  | [] => True
  | (_, term) :: rest => term.HeadsNamed ∧ Term.HeadsNamedNamed rest

end

/-! ### What faces the variables -/

mutual

/-- The terms that face the variables of a pattern: those inside its compounds too, or only
those outside of them. -/
def Predicate.facing (inside : Bool) : Predicate → Predicate → Bindings
  | ⟨_, args, named⟩, concrete =>
    Term.facingList inside args concrete.args ++ Term.facingNamed inside named concrete.named
termination_by structural pattern => pattern

/-- The terms that face the variables of a term. -/
def Term.facing (inside : Bool) : Term → Term → Bindings
  | .var name, concrete => [(name, concrete)]
  | .compound pred, concrete =>
    match concrete with
    | .compound inner => if inside then pred.facing inside inner else []
    | _ => []
  | .list items, concrete =>
    match concrete with
    | .list inner => Term.facingList inside items inner
    | _ => []
  | .ent _, _ => []
  | .lit _, _ => []
termination_by structural pattern => pattern

/-- The terms that face the variables of terms, place by place. -/
def Term.facingList (inside : Bool) : List Term → List Term → Bindings
  | [], _ => []
  | _ :: _, [] => []
  | pattern :: patterns, concrete :: concretes =>
    pattern.facing inside concrete ++ Term.facingList inside patterns concretes
termination_by structural pattern => pattern

/-- The terms that face the variables of named arguments, key by key. -/
def Term.facingNamed (inside : Bool) :
    List (String × Term) → List (String × Term) → Bindings
  | [], _ => []
  | (key, pattern) :: patterns, concretes =>
    (match concretes.find? (·.1 == key) with
      | some concrete => pattern.facing inside concrete.2
      | none => []) ++ Term.facingNamed inside patterns concretes
termination_by structural pattern => pattern

end

mutual

/-- A pattern and a predicate agree when each predicate in the pattern is taken by itself:
they are the same up to the variables, and no variable faces two terms outside the compounds
of the predicate that it stands in. -/
def Predicate.Fits : Predicate → Predicate → Prop
  | ⟨head, args, named⟩, concrete =>
    (∃ name, head = .name name) ∧ head = concrete.head ∧ Term.FitsList args concrete.args ∧
      Term.FitsNamed named concrete.named ∧
      SingleValued (Term.facingList false args concrete.args ++
        Term.facingNamed false named concrete.named)
termination_by structural pattern => pattern

/-- A term of a pattern agrees with the term that it faces. -/
def Term.Fits : Term → Term → Prop
  | .var _, _ => True
  | .ent entity, concrete => concrete = .ent entity
  | .lit literal, concrete => concrete = .lit literal
  | .compound pred, concrete => ∃ inner, concrete = .compound inner ∧ pred.Fits inner
  | .list items, concrete => ∃ inner, concrete = .list inner ∧ Term.FitsList items inner
termination_by structural pattern => pattern

/-- Terms of a pattern agree with as many terms, place by place. -/
def Term.FitsList : List Term → List Term → Prop
  | [], [] => True
  | pattern :: patterns, concrete :: concretes =>
    pattern.Fits concrete ∧ Term.FitsList patterns concretes
  | _, _ => False
termination_by structural pattern => pattern

/-- Named arguments of a pattern agree with those of their keys. -/
def Term.FitsNamed : List (String × Term) → List (String × Term) → Prop
  | [], _ => True
  | (key, pattern) :: patterns, concretes =>
    (∃ concrete, concretes.find? (·.1 == key) = some concrete ∧ pattern.Fits concrete.2) ∧
      Term.FitsNamed patterns concretes
termination_by structural pattern => pattern

end

/-- What a substitution gives to the variables of some pairs. -/
def Gives (subst : String → Option Term) (pairs : Bindings) : Prop :=
  ∀ pair ∈ pairs, subst pair.1 = some pair.2

theorem gives_append {subst : String → Option Term} {pairs rest : Bindings} :
    Gives subst (pairs ++ rest) ↔ Gives subst pairs ∧ Gives subst rest :=
  List.forall_mem_append

theorem Gives.singleValued {subst : String → Option Term} {pairs : Bindings}
    (gives : Gives subst pairs) : SingleValued pairs :=
  fun _ _ _ isFirst isSecond =>
    Option.some.inj ((gives _ isFirst).symm.trans (gives _ isSecond))

mutual

theorem Term.mem_facing_inside : ∀ (pattern concrete : Term) {pair : String × Term},
    pair ∈ pattern.facing false concrete → pair ∈ pattern.facing true concrete
  | .var _, _, _, member => member
  | .ent _, _, _, member => member
  | .lit _, _, _, member => member
  | .compound _, .compound _, _, member => by
    rw [facing, if_neg Bool.false_ne_true] at member
    exact absurd member List.not_mem_nil
  | .compound _, .var _, _, member => member
  | .compound _, .ent _, _, member => member
  | .compound _, .lit _, _, member => member
  | .compound _, .list _, _, member => member
  | .list items, .list inner, _, member => by
    rw [facing] at member ⊢
    exact mem_facingList_inside items inner member
  | .list _, .var _, _, member => member
  | .list _, .ent _, _, member => member
  | .list _, .lit _, _, member => member
  | .list _, .compound _, _, member => member

theorem Term.mem_facingList_inside : ∀ (patterns concretes : List Term) {pair : String × Term},
    pair ∈ facingList false patterns concretes → pair ∈ facingList true patterns concretes
  | [], _, _, member => member
  | _ :: _, [], _, member => member
  | pattern :: patterns, concrete :: concretes, _, member => by
    rw [facingList, List.mem_append] at member ⊢
    exact member.imp (mem_facing_inside pattern concrete)
      (mem_facingList_inside patterns concretes)

end

theorem Term.mem_facingNamed_inside : ∀ (patterns concretes : List (String × Term))
    {pair : String × Term},
    pair ∈ facingNamed false patterns concretes → pair ∈ facingNamed true patterns concretes
  | [], _, _, member => member
  | (key, pattern) :: patterns, concretes, pair, member => by
    rw [facingNamed, List.mem_append] at member ⊢
    refine member.imp (fun here => ?_) (mem_facingNamed_inside patterns concretes)
    cases isFound : concretes.find? (·.1 == key) with
    | none =>
      rw [isFound] at here
      exact absurd here List.not_mem_nil
    | some concrete =>
      rw [isFound] at here
      exact mem_facing_inside pattern concrete.2 here

mutual

/-- A substitution makes a pattern match a predicate when the two agree, each predicate
taken by itself, and the substitution gives to every variable what faces it. -/
theorem Predicate.instance_iff (subst : String → Option Term) : ∀ (pattern concrete : Predicate),
    pattern.HeadsNamed → (pattern.Instance subst concrete ↔
      pattern.Fits concrete ∧ Gives subst (pattern.facing true concrete))
  | ⟨head, args, named⟩, concrete, ⟨isName, argsNamed, namedNamed⟩ => by
    rw [Predicate.Instance, Predicate.Fits, Predicate.facing, gives_append,
      Term.instanceList_iff subst args concrete.args argsNamed,
      Term.instanceNamed_iff subst named concrete.named namedNamed]
    constructor
    · rintro ⟨sameHead, ⟨argsFit, argsGiven⟩, namedFit, namedGiven⟩
      refine ⟨⟨isName, sameHead, argsFit, namedFit, ?_⟩, argsGiven, namedGiven⟩
      have given : Gives subst (Term.facingList false args concrete.args ++
          Term.facingNamed false named concrete.named) := gives_append.mpr
        ⟨fun pair member => argsGiven pair (Term.mem_facingList_inside args _ member),
          fun pair member => namedGiven pair (Term.mem_facingNamed_inside named _ member)⟩
      exact given.singleValued
    · rintro ⟨⟨_, sameHead, argsFit, namedFit, _⟩, argsGiven, namedGiven⟩
      exact ⟨sameHead, ⟨argsFit, argsGiven⟩, namedFit, namedGiven⟩

theorem Term.instance_iff (subst : String → Option Term) : ∀ (pattern concrete : Term),
    pattern.HeadsNamed → (pattern.Instance subst concrete ↔
      pattern.Fits concrete ∧ Gives subst (pattern.facing true concrete))
  | .var name, concrete, _ => by
    rw [Term.Instance, Term.Fits, Term.facing, Gives, List.forall_mem_singleton, true_and]
  | .ent _, _, _ => by
    rw [Term.Instance, Term.Fits, Term.facing, Gives]
    exact (and_iff_left fun _ member => absurd member List.not_mem_nil).symm
  | .lit _, _, _ => by
    rw [Term.Instance, Term.Fits, Term.facing, Gives]
    exact (and_iff_left fun _ member => absurd member List.not_mem_nil).symm
  | .compound pred, concrete, headsNamed => by
    have inner := fun inner => Predicate.instance_iff subst pred inner headsNamed
    rw [Term.Instance, Term.Fits]
    constructor
    · rintro ⟨faced, rfl, holds⟩
      exact ⟨⟨faced, rfl, ((inner faced).mp holds).1⟩, ((inner faced).mp holds).2⟩
    · rintro ⟨⟨faced, rfl, fits⟩, gives⟩
      exact ⟨faced, rfl, (inner faced).mpr ⟨fits, gives⟩⟩
  | .list items, concrete, headsNamed => by
    have inner := fun inner => Term.instanceList_iff subst items inner headsNamed
    rw [Term.Instance, Term.Fits]
    constructor
    · rintro ⟨faced, rfl, holds⟩
      exact ⟨⟨faced, rfl, ((inner faced).mp holds).1⟩, ((inner faced).mp holds).2⟩
    · rintro ⟨⟨faced, rfl, fits⟩, gives⟩
      exact ⟨faced, rfl, (inner faced).mpr ⟨fits, gives⟩⟩

theorem Term.instanceList_iff (subst : String → Option Term) : ∀ (patterns concretes : List Term),
    Term.HeadsNamedList patterns → (Term.InstanceList subst patterns concretes ↔
      Term.FitsList patterns concretes ∧ Gives subst (Term.facingList true patterns concretes))
  | [], [], _ => by
    rw [Term.InstanceList, Term.FitsList, Term.facingList, Gives]
    exact (and_iff_left fun _ member => absurd member List.not_mem_nil).symm
  | [], _ :: _, _ => ⟨False.elim, fun both => both.1.elim⟩
  | _ :: _, [], _ => ⟨False.elim, fun both => both.1.elim⟩
  | pattern :: patterns, concrete :: concretes, ⟨headNamed, restNamed⟩ => by
    rw [Term.InstanceList, Term.FitsList, Term.facingList, gives_append,
      Term.instance_iff subst pattern concrete headNamed,
      Term.instanceList_iff subst patterns concretes restNamed, and_and_and_comm]

theorem Term.instanceNamed_iff (subst : String → Option Term) :
    ∀ (patterns concretes : List (String × Term)), Term.HeadsNamedNamed patterns →
      (Term.InstanceNamed subst patterns concretes ↔
        Term.FitsNamed patterns concretes ∧ Gives subst (Term.facingNamed true patterns concretes))
  | [], _, _ => by
    rw [Term.InstanceNamed, Term.FitsNamed, Term.facingNamed, Gives]
    exact (and_iff_left fun _ member => absurd member List.not_mem_nil).symm
  | (key, pattern) :: patterns, concretes, ⟨headNamed, restNamed⟩ => by
    rw [Term.InstanceNamed, Term.FitsNamed, Term.facingNamed, gives_append,
      Term.instanceNamed_iff subst patterns concretes restNamed]
    cases concretes.find? (·.1 == key) with
    | none => simp only [reduceCtorEq, false_and, exists_false]
    | some concrete =>
      simp only [Option.some.injEq, exists_eq_left',
        Term.instance_iff subst pattern concrete.2 headNamed]
      rw [and_and_and_comm]

end

/-! ### What the matcher computes -/

theorem matchTerm_var (name : String) (concrete : Term) (bindings : Bindings) :
    matchTerm (.var name) concrete bindings = assign bindings (name, concrete) := by
  rw [matchTerm, assign]
  cases bindings.find? (·.1 == name) <;> rfl

theorem matchPattern_mk (head : PredicateHead) (args : List Term) (named : List (String × Term))
    (concrete : Predicate) (bindings : Bindings) :
    matchPattern ⟨head, args, named⟩ concrete = some bindings ↔
      (∃ name, head = .name name) ∧ head = concrete.head ∧
        args.length = concrete.args.length ∧
        (matchTerms args concrete.args []).bind (matchNamed named concrete.named) =
          some bindings := by
  obtain ⟨head', args', named'⟩ := concrete
  cases head with
  | id id => simp [matchPattern]
  | name name =>
    cases head' with
    | id id => simp [matchPattern]
    | name name' =>
      simp only [matchPattern]
      split_ifs with differs longer
      · simp [differs]
      · simp [longer]
      · rw [not_not] at differs longer
        cases matchTerms args args' [] with
        | none => simp
        | some collected => simp [differs, longer]

theorem matchTerm_compound (pred : Predicate) (concrete : Term) (bindings bindings' : Bindings) :
    matchTerm (.compound pred) concrete bindings = some bindings' ↔
      (∃ inner, concrete = .compound inner ∧ (matchPattern pred inner).isSome = true) ∧
        bindings = bindings' := by
  cases concrete with
  | compound inner =>
    rw [matchTerm, Option.ite_none_right_eq_some, Option.some.injEq]
    simp
  | var _ => simp [matchTerm]
  | ent _ => simp [matchTerm]
  | lit _ => simp [matchTerm]
  | list _ => simp [matchTerm]

theorem matchTerm_list (items : List Term) (concrete : Term) (bindings bindings' : Bindings) :
    matchTerm (.list items) concrete bindings = some bindings' ↔
      ∃ inner, concrete = .list inner ∧ items.length = inner.length ∧
        matchTerms items inner bindings = some bindings' := by
  cases concrete with
  | list inner => simp [matchTerm]
  | var _ => simp [matchTerm]
  | ent _ => simp [matchTerm]
  | lit _ => simp [matchTerm]
  | compound _ => simp [matchTerm]

theorem matchTerms_cons (pattern concrete : Term) (patterns concretes : List Term)
    (bindings : Bindings) :
    matchTerms (pattern :: patterns) (concrete :: concretes) bindings =
      (matchTerm pattern concrete bindings).bind (matchTerms patterns concretes) := by
  rw [matchTerms]
  cases matchTerm pattern concrete bindings <;> rfl

theorem matchNamed_cons (key : String) (pattern : Term)
    (patterns concretes : List (String × Term)) (bindings : Bindings) :
    matchNamed ((key, pattern) :: patterns) concretes bindings =
      (concretes.find? (·.1 == key)).bind fun concrete =>
        (matchTerm pattern concrete.2 bindings).bind (matchNamed patterns concretes) := by
  rw [matchNamed]
  cases concretes.find? (·.1 == key) with
  | none => rfl
  | some concrete =>
    obtain ⟨_, concrete⟩ := concrete
    dsimp only [Option.bind_some]
    cases matchTerm pattern concrete bindings <;> rfl

theorem Predicate.Fits.singleValued {pattern concrete : Predicate} (fits : pattern.Fits concrete) :
    SingleValued (pattern.facing false concrete) := by
  obtain ⟨head, args, named⟩ := pattern
  exact fits.2.2.2.2

theorem Term.length_of_fitsList : ∀ {patterns concretes : List Term},
    FitsList patterns concretes → patterns.length = concretes.length
  | [], [], _ => rfl
  | _ :: _, _ :: _, ⟨_, rest⟩ => congrArg (· + 1) (length_of_fitsList rest)

theorem Term.facing_compound_outside (pred : Predicate) (concrete : Term) :
    (Term.compound pred).facing false concrete = [] := by
  cases concrete <;> rfl

mutual

/-- The matcher answers with what faces the variables outside of compounds. -/
theorem matchPattern_eq_some_iff : ∀ (pattern concrete : Predicate) (bindings : Bindings),
    matchPattern pattern concrete = some bindings ↔
      pattern.Fits concrete ∧ assignAll [] (pattern.facing false concrete) = some bindings
  | ⟨head, args, named⟩, concrete, bindings => by
    rw [matchPattern_mk, Predicate.Fits, Predicate.facing, assignAll_append]
    simp only [Option.bind_eq_some_iff]
    constructor
    · rintro ⟨isName, sameHead, sameLength, collected, first, later⟩
      have ⟨argsFit, argsGiven⟩ :=
        (matchTerms_eq_some_iff args concrete.args [] collected sameLength).mp first
      have ⟨namedFit, namedGiven⟩ :=
        (matchNamed_eq_some_iff named concrete.named collected bindings).mp later
      have given : assignAll [] (Term.facingList false args concrete.args ++
          Term.facingNamed false named concrete.named) = some bindings := by
        rw [assignAll_append, argsGiven]
        exact namedGiven
      exact ⟨⟨isName, sameHead, argsFit, namedFit,
        (exists_assignAll_nil_iff _).mp ⟨bindings, given⟩⟩, collected, argsGiven, namedGiven⟩
    · rintro ⟨⟨isName, sameHead, argsFit, namedFit, _⟩, collected, argsGiven, namedGiven⟩
      have sameLength := Term.length_of_fitsList argsFit
      exact ⟨isName, sameHead, sameLength, collected,
        (matchTerms_eq_some_iff args concrete.args [] collected sameLength).mpr
          ⟨argsFit, argsGiven⟩,
        (matchNamed_eq_some_iff named concrete.named collected bindings).mpr
          ⟨namedFit, namedGiven⟩⟩

theorem matchTerm_eq_some_iff : ∀ (pattern concrete : Term) (bindings bindings' : Bindings),
    matchTerm pattern concrete bindings = some bindings' ↔
      pattern.Fits concrete ∧ assignAll bindings (pattern.facing false concrete) = some bindings'
  | .var name, concrete, bindings, bindings' => by
    rw [matchTerm_var, Term.Fits, Term.facing, assignAll, true_and]
    simp only [assignAll, Option.bind_fun_some]
  | .ent entity, concrete, bindings, bindings' => by
    rw [matchTerm, Term.Fits, Term.facing, assignAll, Option.ite_none_right_eq_some]
  | .lit literal, concrete, bindings, bindings' => by
    rw [matchTerm, Term.Fits, Term.facing, assignAll, Option.ite_none_right_eq_some]
  | .compound pred, concrete, bindings, bindings' => by
    -- the bindings of the compound exist, and are dropped
    have matches' : ∀ inner, (matchPattern pred inner).isSome = true ↔ pred.Fits inner := by
      intro inner
      rw [Option.isSome_iff_exists]
      constructor
      · rintro ⟨found, matched⟩
        exact ((matchPattern_eq_some_iff pred inner found).mp matched).1
      · intro fits
        obtain ⟨found, given⟩ := (exists_assignAll_nil_iff _).mpr fits.singleValued
        exact ⟨found, (matchPattern_eq_some_iff pred inner found).mpr ⟨fits, given⟩⟩
    rw [matchTerm_compound, Term.Fits, Term.facing_compound_outside, assignAll, Option.some.injEq]
    simp only [matches']
  | .list items, concrete, bindings, bindings' => by
    rw [matchTerm_list, Term.Fits]
    constructor
    · rintro ⟨inner, rfl, sameLength, matched⟩
      have ⟨fits, given⟩ :=
        (matchTerms_eq_some_iff items inner bindings bindings' sameLength).mp matched
      exact ⟨⟨inner, rfl, fits⟩, given⟩
    · rintro ⟨⟨inner, rfl, fits⟩, given⟩
      have sameLength := Term.length_of_fitsList fits
      exact ⟨inner, rfl, sameLength,
        (matchTerms_eq_some_iff items inner bindings bindings' sameLength).mpr ⟨fits, given⟩⟩

theorem matchTerms_eq_some_iff : ∀ (patterns concretes : List Term)
    (bindings bindings' : Bindings), patterns.length = concretes.length →
    (matchTerms patterns concretes bindings = some bindings' ↔
      Term.FitsList patterns concretes ∧
        assignAll bindings (Term.facingList false patterns concretes) = some bindings')
  | [], [], bindings, bindings', _ => by
    rw [matchTerms, Term.FitsList, Term.facingList, assignAll, true_and]
  | pattern :: patterns, concrete :: concretes, bindings, bindings', sameLength => by
    have restLength := Nat.succ.inj sameLength
    rw [matchTerms_cons, Term.FitsList, Term.facingList, assignAll_append]
    simp only [Option.bind_eq_some_iff, matchTerm_eq_some_iff pattern concrete,
      matchTerms_eq_some_iff patterns concretes _ _ restLength]
    constructor
    · rintro ⟨collected, ⟨fits, given⟩, restFits, restGiven⟩
      exact ⟨⟨fits, restFits⟩, collected, given, restGiven⟩
    · rintro ⟨⟨fits, restFits⟩, collected, given, restGiven⟩
      exact ⟨collected, ⟨fits, given⟩, restFits, restGiven⟩

theorem matchNamed_eq_some_iff : ∀ (patterns concretes : List (String × Term))
    (bindings bindings' : Bindings),
    matchNamed patterns concretes bindings = some bindings' ↔
      Term.FitsNamed patterns concretes ∧
        assignAll bindings (Term.facingNamed false patterns concretes) = some bindings'
  | [], _, bindings, bindings' => by
    rw [matchNamed, Term.FitsNamed, Term.facingNamed, assignAll, true_and]
  | (key, pattern) :: patterns, concretes, bindings, bindings' => by
    rw [matchNamed_cons, Term.FitsNamed, Term.facingNamed, assignAll_append]
    cases concretes.find? (·.1 == key) with
    | none => simp only [Option.bind_none, reduceCtorEq, false_and, exists_false]
    | some concrete =>
      simp only [Option.bind_some, Option.bind_eq_some_iff, Option.some.injEq, exists_eq_left',
        matchTerm_eq_some_iff pattern concrete.2, matchNamed_eq_some_iff patterns concretes]
      constructor
      · rintro ⟨collected, ⟨fits, given⟩, restFits, restGiven⟩
        exact ⟨⟨fits, restFits⟩, collected, given, restGiven⟩
      · rintro ⟨⟨fits, restFits⟩, collected, given, restGiven⟩
        exact ⟨collected, ⟨fits, given⟩, restFits, restGiven⟩

end

/-! ### The variables that something faces -/

mutual

/-- Where a pattern and a predicate agree, something faces each variable. -/
theorem Predicate.mem_variables_iff (name : String) : ∀ {pattern concrete : Predicate},
    pattern.Fits concrete →
      (name ∈ pattern.variables ↔ ∃ value, (name, value) ∈ pattern.facing true concrete)
  | ⟨_, args, named⟩, concrete, ⟨_, _, argsFit, namedFit, _⟩ => by
    rw [Predicate.variables, Predicate.facing, List.mem_append,
      Term.mem_variablesList_iff name argsFit, Term.mem_variablesNamed_iff name namedFit]
    simp only [List.mem_append, exists_or]

theorem Term.mem_variables_iff (name : String) : ∀ {pattern concrete : Term},
    pattern.Fits concrete →
      (name ∈ pattern.variables ↔ ∃ value, (name, value) ∈ pattern.facing true concrete)
  | .var _, _, _ => by
    simp only [Term.variables, Term.facing, List.mem_singleton, Prod.mk.injEq, exists_and_left,
      exists_eq, and_true]
  | .ent _, _, _ => by
    simp only [Term.variables, Term.facing, List.not_mem_nil, exists_false]
  | .lit _, _, _ => by
    simp only [Term.variables, Term.facing, List.not_mem_nil, exists_false]
  | .compound _, _, ⟨_, rfl, fits⟩ => Predicate.mem_variables_iff name fits
  | .list _, _, ⟨_, rfl, fits⟩ => Term.mem_variablesList_iff name fits

theorem Term.mem_variablesList_iff (name : String) : ∀ {patterns concretes : List Term},
    Term.FitsList patterns concretes →
      (name ∈ Term.variablesList patterns ↔
        ∃ value, (name, value) ∈ Term.facingList true patterns concretes)
  | [], [], _ => by
    simp only [Term.variablesList, Term.facingList, List.not_mem_nil, exists_false]
  | _ :: _, _ :: _, ⟨fits, restFits⟩ => by
    rw [Term.variablesList, Term.facingList, List.mem_append, Term.mem_variables_iff name fits,
      Term.mem_variablesList_iff name restFits]
    simp only [List.mem_append, exists_or]

theorem Term.mem_variablesNamed_iff (name : String) :
    ∀ {patterns concretes : List (String × Term)}, Term.FitsNamed patterns concretes →
      (name ∈ Term.variablesNamed patterns ↔
        ∃ value, (name, value) ∈ Term.facingNamed true patterns concretes)
  | [], _, _ => by
    simp only [Term.variablesNamed, Term.facingNamed, List.not_mem_nil, exists_false]
  | (_, _) :: _, _, ⟨⟨_, isFound, fits⟩, restFits⟩ => by
    rw [Term.variablesNamed, Term.facingNamed, isFound, List.mem_append,
      Term.mem_variables_iff name fits, Term.mem_variablesNamed_iff name restFits]
    simp only [List.mem_append, exists_or]

end

/-! ### Matching and substitution -/

/-- A substitution of exactly the variables of a pattern under which it matches. -/
def Substitutes (subst : String → Option Term) (pattern concrete : Predicate) : Prop :=
  (∀ name, (subst name).isSome = true ↔ name ∈ pattern.variables) ∧
    pattern.Instance subst concrete

/-- The matcher answers exactly when there is a substitution, and answers with it. -/
def MatchesExactly (pattern concrete : Predicate) : Prop :=
  (∀ bindings, matchPattern pattern concrete = some bindings →
    (bindings.map Prod.fst).Nodup ∧ Substitutes (lookup bindings) pattern concrete) ∧
  ∀ subst, Substitutes subst pattern concrete →
    ∃ bindings, matchPattern pattern concrete = some bindings ∧ lookup bindings = subst

theorem Predicate.mem_facing_inside {pattern concrete : Predicate} {pair : String × Term}
    (member : pair ∈ pattern.facing false concrete) : pair ∈ pattern.facing true concrete := by
  obtain ⟨_, args, named⟩ := pattern
  rw [facing, List.mem_append] at member ⊢
  exact member.imp (Term.mem_facingList_inside args _) (Term.mem_facingNamed_inside named _)

/-- The matcher is exact when and only when the two differ, each predicate taken by itself, or
all that faces a variable also faces it outside of compounds. -/
theorem matchesExactly_iff {pattern : Predicate} (headsNamed : pattern.HeadsNamed)
    (concrete : Predicate) :
    MatchesExactly pattern concrete ↔ (pattern.Fits concrete →
      ∀ pair ∈ pattern.facing true concrete, pair ∈ pattern.facing false concrete) := by
  constructor
  · rintro ⟨sound, _⟩ fits pair member
    obtain ⟨bindings, given⟩ := (exists_assignAll_nil_iff _).mpr fits.singleValued
    have substitutes :=
      (sound bindings ((matchPattern_eq_some_iff _ _ _).mpr ⟨fits, given⟩)).2
    have gives := ((Predicate.instance_iff _ _ _ headsNamed).mp substitutes.2).2
    exact (lookup_assignAll_nil given _ _).mp (gives pair member)
  · intro outside
    constructor
    · intro bindings matched
      obtain ⟨fits, given⟩ := (matchPattern_eq_some_iff _ _ _).mp matched
      have isGiven := lookup_assignAll_nil given
      refine ⟨nodup_collected given, fun name => ?_, ?_⟩
      · rw [Predicate.mem_variables_iff name fits, Option.isSome_iff_exists]
        simp only [isGiven]
        exact exists_congr fun value => ⟨Predicate.mem_facing_inside, outside fits _⟩
      · rw [Predicate.instance_iff _ _ _ headsNamed]
        exact ⟨fits, fun pair member => (isGiven _ _).mpr (outside fits pair member)⟩
    · rintro subst ⟨exactly, isInstance⟩
      obtain ⟨fits, gives⟩ := (Predicate.instance_iff _ _ _ headsNamed).mp isInstance
      obtain ⟨bindings, given⟩ := (exists_assignAll_nil_iff _).mpr fits.singleValued
      refine ⟨bindings, (matchPattern_eq_some_iff _ _ _).mpr ⟨fits, given⟩, ?_⟩
      ext name value
      rw [lookup_assignAll_nil given]
      constructor
      · intro member
        exact gives _ (Predicate.mem_facing_inside member)
      · intro isValue
        -- the variable occurs, so something faces it, which is its value
        have occurs := (exactly name).mp (Option.isSome_of_eq_some isValue)
        obtain ⟨value', member⟩ := (Predicate.mem_variables_iff name fits).mp occurs
        have same := Option.some.inj ((gives _ member).symm.trans isValue)
        rw [← same]
        exact outside fits _ member

/-! ### Variables inside compounds -/

mutual

/-- A term with no variable inside a compound. -/
def Term.Flat : Term → Prop
  | .var _ => True
  | .ent _ => True
  | .lit _ => True
  | .compound pred => pred.variables = []
  | .list items => Term.FlatList items

/-- Terms with no variable inside a compound. -/
def Term.FlatList : List Term → Prop
  | [] => True
  | term :: rest => term.Flat ∧ Term.FlatList rest

end

/-- A pattern with no variable inside a compound. -/
def Predicate.Flat (pattern : Predicate) : Prop :=
  Term.FlatList pattern.args ∧ ∀ pair ∈ pattern.named, pair.2.Flat

mutual

theorem Term.mem_facing_outside {pair : String × Term} : ∀ {pattern concrete : Term},
    pattern.Flat → pattern.Fits concrete → pair ∈ pattern.facing true concrete →
      pair ∈ pattern.facing false concrete
  | .var _, _, _, _, member => member
  | .ent _, _, _, _, member => member
  | .lit _, _, _, _, member => member
  | .compound pred, _, flat, ⟨_, rfl, fits⟩, member => by
    have occurs := (Predicate.mem_variables_iff pair.1 fits).mpr ⟨pair.2, member⟩
    rw [Flat] at flat
    rw [flat] at occurs
    exact absurd occurs List.not_mem_nil
  | .list _, _, flat, ⟨_, rfl, fits⟩, member => mem_facingList_outside flat fits member

theorem Term.mem_facingList_outside {pair : String × Term} : ∀ {patterns concretes : List Term},
    FlatList patterns → FitsList patterns concretes →
      pair ∈ facingList true patterns concretes → pair ∈ facingList false patterns concretes
  | [], [], _, _, member => member
  | _ :: _, _ :: _, ⟨flat, restFlat⟩, ⟨fits, restFits⟩, member => by
    rw [facingList, List.mem_append] at member ⊢
    exact member.imp (mem_facing_outside flat fits) (mem_facingList_outside restFlat restFits)

end

theorem Term.mem_facingNamed_outside {pair : String × Term} :
    ∀ {patterns concretes : List (String × Term)}, (∀ entry ∈ patterns, entry.2.Flat) →
      FitsNamed patterns concretes → pair ∈ facingNamed true patterns concretes →
      pair ∈ facingNamed false patterns concretes
  | [], _, _, _, member => member
  | (_, _) :: _, _, flat, ⟨⟨_, isFound, fits⟩, restFits⟩, member => by
    rw [facingNamed, isFound, List.mem_append] at member ⊢
    exact member.imp (mem_facing_outside (flat _ List.mem_cons_self) fits)
      (mem_facingNamed_outside (fun entry isLater => flat entry (List.mem_cons_of_mem _ isLater))
        restFits)

/-- The matcher is exact for the patterns without variables inside compounds. -/
theorem Predicate.Flat.matchesExactly {pattern : Predicate} (flat : pattern.Flat)
    (headsNamed : pattern.HeadsNamed) (concrete : Predicate) :
    MatchesExactly pattern concrete := by
  refine (matchesExactly_iff headsNamed concrete).mpr fun fits pair member => ?_
  obtain ⟨_, args, named⟩ := pattern
  obtain ⟨_, _, argsFit, namedFit, _⟩ := fits
  rw [facing, List.mem_append] at member ⊢
  exact member.imp (Term.mem_facingList_outside flat.1 argsFit)
    (Term.mem_facingNamed_outside flat.2 namedFit)

/-- A pattern with a variable both outside and inside a compound. -/
def sharedPattern : Predicate :=
  ⟨.name "f", [.var "x", .compound ⟨.name "g", [.var "x"], []⟩], []⟩

/-- A predicate with entities where the pattern has its variable. -/
def pairedConcrete (first second : EntityId) : Predicate :=
  ⟨.name "f", [.ent first, .compound ⟨.name "g", [.ent second], []⟩], []⟩

theorem sharedPattern_headsNamed : sharedPattern.HeadsNamed :=
  ⟨⟨"f", rfl⟩, ⟨trivial, ⟨⟨"g", rfl⟩, ⟨trivial, trivial⟩, trivial⟩, trivial⟩, trivial⟩

theorem pairedConcrete_headsNamed (first second : EntityId) :
    (pairedConcrete first second).HeadsNamed :=
  ⟨⟨"f", rfl⟩, ⟨trivial, ⟨⟨"g", rfl⟩, ⟨trivial, trivial⟩, trivial⟩, trivial⟩, trivial⟩

/-- With two entities the matcher answers, and its answer is no substitution. -/
theorem matchPattern_drops_inner :
    sharedPattern.HeadsNamed ∧ (pairedConcrete ⟨"A"⟩ ⟨"B"⟩).HeadsNamed ∧
      ¬ MatchesExactly sharedPattern (pairedConcrete ⟨"A"⟩ ⟨"B"⟩) := by
  refine ⟨sharedPattern_headsNamed, pairedConcrete_headsNamed _ _, ?_⟩
  rintro ⟨sound, _⟩
  have substitutes := (sound [("x", .ent ⟨"A"⟩)] (by decide)).2
  obtain ⟨_, ⟨_, ⟨_, same, isInner⟩, _⟩, _⟩ := substitutes.2
  obtain rfl := Term.compound.inj same
  have wrong : lookup [("x", Term.ent ⟨"A"⟩)] "x" = some (.ent ⟨"B"⟩) := isInner.2.1.1
  exact absurd wrong (by decide)

/-- With one entity in both places the matcher is exact. -/
theorem matchesExactly_iff_shared :
    MatchesExactly sharedPattern (pairedConcrete ⟨"A"⟩ ⟨"A"⟩) ∧
      ∀ pair ∈ sharedPattern.facing true (pairedConcrete ⟨"A"⟩ ⟨"A"⟩),
        pair ∈ sharedPattern.facing false (pairedConcrete ⟨"A"⟩ ⟨"A"⟩) := by
  have outside : ∀ pair ∈ sharedPattern.facing true (pairedConcrete ⟨"A"⟩ ⟨"A"⟩),
      pair ∈ sharedPattern.facing false (pairedConcrete ⟨"A"⟩ ⟨"A"⟩) := by
    decide
  exact ⟨(matchesExactly_iff sharedPattern_headsNamed _).mpr fun _ => outside, outside⟩

end Factum
