/-
This file is about what a query answers, whatever the policy.

Arbitration hands out matches and nothing else, and it is never silent: where something
matches there is a result, or the answer is ambiguous. Two policies give a result for every
predicate that matches. The other three give one result at most and refuse otherwise: when
all have to agree the result stands for all the matches, and a custom policy decides nothing,
so that its result is the only match there is.
-/

import Factum.FastPath

namespace Factum

variable {F : Type}

/-! ### What an answer says -/

/-- Every match has a result with its canonical predicate. -/
def EachPredicate (host : Host F) (isMatch : QueryResult F → Prop)
    (results : List (QueryResult F)) : Prop :=
  ∀ result, isMatch result → ∃ chosen ∈ results,
    predicateSignature host chosen.node.predicate = predicateSignature host result.node.predicate

/-- There is one result at most, and none beside a refusal. -/
def OneOrRefused (results : List (QueryResult F)) (ambiguous : Bool) : Prop :=
  results.length ≤ 1 ∧ (ambiguous = true → results = [])

/-- What results say of the matches under a policy. -/
def Decides (host : Host F) (isMatch : QueryResult F → Prop) :
    ConflictPolicy F → List (QueryResult F) → Bool → Prop
  | .latestWins, results, _ => EachPredicate host isMatch results
  | .highestAuthority, results, _ => EachPredicate host isMatch results
  | .unanimous, results, ambiguous =>
    OneOrRefused results ambiguous ∧
      (ambiguous = true ↔ ∃ one two, isMatch one ∧ isMatch two ∧
        one.node.predicate ≠ two.node.predicate)
  | .weightedVote _, results, ambiguous => OneOrRefused results ambiguous
  | .custom, results, ambiguous =>
    OneOrRefused results ambiguous ∧
      ∀ chosen ∈ results, ∀ result, isMatch result → result = chosen

/-- An answer hands out matches only, is silent only where nothing matches, and decides as the
policy says. -/
structure Accounts (host : Host F) (isMatch : QueryResult F → Prop) (policy : ConflictPolicy F)
    (results : List (QueryResult F)) (ambiguous : Bool) : Prop where
  sound : ∀ result ∈ results, isMatch result
  silent : results = [] ∧ ambiguous = false ↔ ∀ result, ¬ isMatch result
  decides : Decides host isMatch policy results ambiguous

theorem oneOrRefused_one (only : QueryResult F) : OneOrRefused [only] false :=
  ⟨le_rfl, fun refused => absurd refused Bool.false_ne_true⟩

theorem oneOrRefused_none : OneOrRefused ([] : List (QueryResult F)) true :=
  ⟨Nat.zero_le _, fun _ => rfl⟩

/-- A policy that gives each predicate a result is not silent. -/
theorem EachPredicate.ne_nil {host : Host F} {isMatch : QueryResult F → Prop}
    {results : List (QueryResult F)} (each : EachPredicate host isMatch results)
    {result : QueryResult F} (matched : isMatch result) : results ≠ [] := by
  obtain ⟨chosen, member, _⟩ := each result matched
  exact List.ne_nil_of_mem member

/-- Matches that are the same decide the same. -/
theorem Accounts.congr {host : Host F} {isMatch isMatch' : QueryResult F → Prop}
    (same : ∀ result, isMatch result ↔ isMatch' result) {policy : ConflictPolicy F}
    {results : List (QueryResult F)} {ambiguous : Bool}
    (accounts : Accounts host isMatch policy results ambiguous) :
    Accounts host isMatch' policy results ambiguous := by
  have isSame : isMatch = isMatch' := funext fun result => propext (same result)
  exact isSame ▸ accounts

section Matches

variable (host : Host F)

/-- The answer of several matches. -/
theorem accounts_of_several {policy : ConflictPolicy F} {group : List (QueryResult F)}
    (nonempty : group ≠ []) {results : List (QueryResult F)} {ambiguous : Bool}
    (sound : ∀ result ∈ results, result ∈ group) (speaks : results ≠ [] ∨ ambiguous = true)
    (decides : Decides host (· ∈ group) policy results ambiguous) :
    Accounts host (· ∈ group) policy results ambiguous where
  sound := sound
  silent := by
    obtain ⟨first, member⟩ := List.exists_mem_of_ne_nil group nonempty
    refine iff_of_false (fun silent => ?_) fun none => none first member
    rcases speaks with some | refused
    · exact some silent.1
    · exact Bool.false_ne_true (silent.2.symm.trans refused)
  decides := decides

/-- Where nothing matches, nothing is answered. -/
theorem accounts_none (policy : ConflictPolicy F) :
    Accounts host (· ∈ ([] : List (QueryResult F))) policy [] false where
  sound := fun _ member => member
  silent := iff_of_true ⟨rfl, rfl⟩ fun _ => List.not_mem_nil
  decides := by
    have each : EachPredicate host (· ∈ ([] : List (QueryResult F))) [] := fun result member =>
      absurd member List.not_mem_nil
    have refused : OneOrRefused ([] : List (QueryResult F)) false :=
      ⟨Nat.zero_le _, fun _ => rfl⟩
    cases policy with
    | latestWins => exact each
    | highestAuthority => exact each
    | unanimous =>
      refine ⟨refused, iff_of_false Bool.false_ne_true ?_⟩
      rintro ⟨one, two, isOne, isTwo, differ⟩
      exact List.not_mem_nil isOne
    | weightedVote weights => exact refused
    | custom => exact ⟨refused, fun chosen member => absurd member List.not_mem_nil⟩

/-- One match is its own answer. -/
theorem accounts_single (policy : ConflictPolicy F) (only : QueryResult F) :
    Accounts host (· ∈ [only]) policy [only] false := by
  refine accounts_of_several host (List.cons_ne_nil _ _) (fun _ member => member)
    (.inl (List.cons_ne_nil _ _)) ?_
  have each : EachPredicate host (· ∈ [only]) [only] := fun result member =>
    ⟨result, member, rfl⟩
  cases policy with
  | latestWins => exact each
  | highestAuthority => exact each
  | unanimous =>
    refine ⟨oneOrRefused_one only, iff_of_false Bool.false_ne_true ?_⟩
    rintro ⟨one, two, isOne, isTwo, differ⟩
    rw [List.mem_singleton.mp isOne, List.mem_singleton.mp isTwo] at differ
    exact differ rfl
  | weightedVote weights => exact oneOrRefused_one only
  | custom =>
    refine ⟨oneOrRefused_one only, fun chosen isChosen result member => ?_⟩
    rw [List.mem_singleton.mp isChosen, List.mem_singleton.mp member]

/-- When the rivals of each match have one winner among them, the winners are matches, and each
predicate has one. -/
theorem collected_winners {found : List (QueryResult F)} {answers : List (Arbitrated F)}
    (each : ∀ answer ∈ answers, ∃ result ∈ found, ∃ winner ∈ rivals host found result,
      answer.1 = [winner])
    (all : ∀ result ∈ found, ∃ answer ∈ answers, ∃ winner ∈ rivals host found result,
      answer.1 = [winner]) :
    (∀ chosen ∈ (collectArbitrated answers).1, chosen ∈ found) ∧
      EachPredicate host (· ∈ found) (collectArbitrated answers).1 := by
  constructor
  · intro chosen member
    obtain ⟨answer, isAnswer, isChosen⟩ := List.mem_flatMap.mp member
    obtain ⟨result, _, winner, isRival, isWinner⟩ := each answer isAnswer
    rw [isWinner, List.mem_singleton] at isChosen
    rw [isChosen]
    exact ((mem_rivals_iff host).mp isRival).1
  · intro result member
    obtain ⟨answer, isAnswer, winner, isRival, isWinner⟩ := all result member
    have isChosen : winner ∈ answer.1 := by
      rw [isWinner]
      exact List.mem_singleton_self _
    exact ⟨winner, List.mem_flatMap.mpr ⟨answer, isAnswer, isChosen⟩,
      ((mem_rivals_iff host).mp isRival).2⟩

end Matches

/-! ### Winners -/

section Winners

variable [F32 F]

/-! ### A group -/

variable (hasher : Hash.Order String) (host : Host F)

theorem subGroups_latestWins (found : List (QueryResult F)) :
    (∀ chosen ∈ (collectArbitrated ((subGroupByPredicate hasher host found).map
        latestWinsOf)).1, chosen ∈ found) ∧
      EachPredicate host (· ∈ found)
        (collectArbitrated ((subGroupByPredicate hasher host found).map latestWinsOf)).1 := by
  have nonempty : ∀ result ∈ found, rivals host found result ≠ [] := fun result member =>
    List.ne_nil_of_mem ((mem_rivals_iff host).mpr ⟨member, rfl⟩)
  refine collected_winners host (fun answer isAnswer => ?_) fun result member => ?_
  · obtain ⟨result, member, rfl⟩ := (mem_map_subGroups_iff host hasher found latestWinsOf
      answer).mp isAnswer
    exact ⟨result, member, latestWinsOf_winner (nonempty result member)⟩
  · exact ⟨_, (mem_map_subGroups_iff host hasher found latestWinsOf _).mpr ⟨result, member, rfl⟩,
      latestWinsOf_winner (nonempty result member)⟩

theorem subGroups_highestAuthority {found : List (QueryResult F)} {answer : Arbitrated F}
    (ran : ((subGroupByPredicate hasher host found).mapM highestAuthorityOf).map
      collectArbitrated = some answer) :
    (∀ chosen ∈ answer.1, chosen ∈ found) ∧ EachPredicate host (· ∈ found) answer.1 := by
  have goesOn : none ∉ (subGroupByPredicate hasher host found).map highestAuthorityOf := by
    intro stops
    rw [mapM_eq_none stops] at ran
    cases ran
  rw [mapM_eq_some goesOn, Option.map_some, Option.some.injEq] at ran
  rw [← ran]
  have listed : ∀ answer, answer ∈ ((subGroupByPredicate hasher host found).map
      highestAuthorityOf).filterMap id ↔
        ∃ result ∈ found, some answer = highestAuthorityOf (rivals host found result) := by
    intro answer
    rw [List.mem_filterMap]
    simp only [id_eq, exists_eq_right]
    exact mem_map_subGroups_iff host hasher found highestAuthorityOf (some answer)
  refine collected_winners host (fun answer isAnswer => ?_) fun result member => ?_
  · obtain ⟨result, member, isResult⟩ := (listed answer).mp isAnswer
    exact ⟨result, member, highestAuthorityOf_winner isResult.symm⟩
  · cases isResult : highestAuthorityOf (rivals host found result) with
    | none =>
      exact absurd ((mem_map_subGroups_iff host hasher found highestAuthorityOf none).mpr
        ⟨result, member, isResult.symm⟩) goesOn
    | some answer =>
      exact ⟨answer, (listed answer).mpr ⟨result, member, isResult.symm⟩,
        highestAuthorityOf_winner isResult⟩

/-- The answer of a group accounts for its matches. -/
theorem arbitrateGroup_accounts {policy : ConflictPolicy F} {group : List (QueryResult F)}
    (nonempty : group ≠ []) {answer : Arbitrated F}
    (ran : arbitrateGroup hasher host policy group = some answer) :
    Accounts host (· ∈ group) policy answer.1 answer.2 := by
  by_cases one : group.length = 1
  · obtain ⟨only, rfl⟩ := List.length_eq_one_iff.mp one
    rw [arbitrateGroup, Option.some.injEq] at ran
    rw [← ran]
    exact accounts_single host policy only
  obtain ⟨first, isFirst⟩ := List.exists_mem_of_ne_nil group nonempty
  have refusal : Decides host (· ∈ group) policy [] true →
      Accounts host (· ∈ group) policy [] true :=
    accounts_of_several host nonempty (fun _ member => absurd member List.not_mem_nil) (.inr rfl)
  cases policy with
  | latestWins =>
    rw [arbitrateGroup_latestWins host hasher one, Option.some.injEq] at ran
    obtain ⟨sound, each⟩ := subGroups_latestWins hasher host group
    rw [← ran]
    exact accounts_of_several host nonempty sound (.inl (each.ne_nil isFirst)) each
  | highestAuthority =>
    rw [arbitrateGroup_highestAuthority host hasher one] at ran
    obtain ⟨sound, each⟩ := subGroups_highestAuthority hasher host ran
    exact accounts_of_several host nonempty sound (.inl (each.ne_nil isFirst)) each
  | unanimous =>
    by_cases differ : ∃ one two, one ∈ group ∧ two ∈ group ∧
        one.node.predicate ≠ two.node.predicate
    · obtain ⟨one, two, isOne, isTwo, apart⟩ := differ
      rw [arbitrateGroup_unanimous host hasher isOne isTwo apart, Option.some.injEq] at ran
      rw [← ran]
      exact refusal ⟨oneOrRefused_none, iff_of_true rfl ⟨one, two, isOne, isTwo, apart⟩⟩
    · obtain ⟨chosen, isChosen, agreed⟩ :=
        exists_arbitrateGroup_agreed host hasher nonempty differ
      rw [agreed, Option.some.injEq] at ran
      rw [← ran]
      refine accounts_of_several host nonempty (fun result member => ?_)
        (.inl (List.cons_ne_nil _ _))
        ⟨oneOrRefused_one chosen, iff_of_false Bool.false_ne_true differ⟩
      rw [List.mem_singleton.mp member]
      exact isChosen
  | weightedVote weights =>
    rw [arbitrateGroup_weightedVote host hasher weights one] at ran
    split at ran
    · rename_i signature best result isBest
      split_ifs at ran with wins
      · rw [← Option.some.inj ran]
        refine accounts_of_several host nonempty (fun chosen member => ?_)
          (.inl (List.cons_ne_nil _ _)) (oneOrRefused_one result)
        rw [List.mem_singleton.mp member]
        exact (of_mem_tally host (mem_of_maxBy isBest)).1
      · rw [← Option.some.inj ran]
        exact refusal oneOrRefused_none
    · rw [← Option.some.inj ran]
      exact refusal oneOrRefused_none
  | custom =>
    rw [arbitrateGroup_custom host hasher one, Option.some.injEq] at ran
    rw [← ran]
    exact refusal ⟨oneOrRefused_none, fun _ member => absurd member List.not_mem_nil⟩

/-- What arbitration answers accounts for what it is given. -/
theorem arbitrate_accounts {policy : ConflictPolicy F} {found : List (QueryResult F)}
    {pattern : Predicate} {answer : Arbitrated F}
    (ran : arbitrate hasher host found policy (some pattern) = some answer) :
    Accounts host (· ∈ found) policy answer.1 answer.2 := by
  cases found with
  | nil =>
    rw [arbitrate, List.isEmpty_nil, if_pos rfl, Option.some.injEq] at ran
    rw [← ran]
    exact accounts_none host policy
  | cons first rest =>
    rw [arbitrate_some hasher host (List.cons_ne_nil _ _)] at ran
    exact arbitrateGroup_accounts hasher host (List.cons_ne_nil _ _) ran

end Winners

/-! ### Queries -/

namespace FactumStore

open Stateful

variable [F32 F]

/-- How often a query lists the node of a match: once, or as often as its entity filter does. -/
def timesListed (q : Query) (node : Node F) : Nat :=
  match q.entityFilter with
  | none => 1
  | some entity => node.listings entity

/-- The matches of a query with one canonical predicate, each as often as it is listed, where
there are several and none ties with the greatest of their authorities. -/
structure Untied (store : MemStore F) (host : Host F) (q : Query) (options : QueryOptions F)
    (group : List (QueryResult F)) : Prop where
  matches_ : ∃ result, store.IsMatch q options result ∧
    ∀ other, other ∈ group ↔ store.IsMatch q options other ∧
      predicateSignature host other.node.predicate = predicateSignature host result.node.predicate
  listed : ∀ other ∈ group,
    (group.map fun result => result.node.id).count other.node.id = timesListed q other.node
  several : 1 < group.length
  untied : topOf group = []

/-- The matches that a query hands to arbitration. -/
def candidateMatches (store : MemStore F) (q : Query) (options : QueryOptions F) :
    List (QueryResult F) :=
  ((store.candidateScan q).filterMap store.activeAt).filterMap (matchOf q options)

theorem mem_candidateMatches_iff {store : MemStore F} (consistent : store.Consistent) {q : Query}
    (filtered : ∀ entity, q.entityFilter = some entity → .ent entity ∈ q.pattern.args)
    (options : QueryOptions F) (result : QueryResult F) :
    result ∈ store.candidateMatches q options ↔ store.IsMatch q options result := by
  unfold candidateMatches candidateScan
  cases filter : q.entityFilter with
  | none => exact mem_headMatches_iff consistent q options result
  | some entity => exact mem_entityMatches_iff consistent (filtered entity filter) options result

/-- A match is handed to arbitration as often as it is listed. -/
theorem count_candidateMatches {store : MemStore F} (consistent : store.Consistent) {q : Query}
    {options : QueryOptions F} {result : QueryResult F}
    (isMatch : store.IsMatch q options result) :
    ((store.candidateMatches q options).map fun other => other.node.id).count result.node.id =
      timesListed q result.node := by
  unfold candidateMatches candidateScan timesListed
  rw [count_matches consistent.keyed _ isMatch]
  cases q.entityFilter with
  | none =>
    refine List.count_eq_one_of_mem (nodup_scan_byPred consistent _) ?_
    exact ((mem_matches_iff consistent.keyed _ q options result).mp
      ((mem_headMatches_iff consistent q options result).mpr isMatch)).1
  | some entity => exact count_scan_byEntity consistent entity isMatch.1

/-- A query stops where the candidates for some predicate are several without one of the
highest authority. -/
theorem untied_of_stops {store : MemStore F} (consistent : store.Consistent) {host : Host F}
    {q : Query}
    (filtered : ∀ entity, q.entityFilter = some entity → .ent entity ∈ q.pattern.args)
    {options : QueryOptions F} {hasher : Hash.Order String} {pattern : Predicate}
    (stops : arbitrate hasher host (store.candidateMatches q options) options.policy
      (some pattern) = none) :
    options.policy = .highestAuthority ∧ ∃ group, store.Untied host q options group := by
  obtain ⟨policy, result, member, notOne, untied⟩ := stops_of_arbitrate stops
  have several : 1 < (rivals host (store.candidateMatches q options) result).length := by
    have isThere := List.length_pos_of_mem ((mem_rivals_iff host).mpr ⟨member, rfl⟩)
    exact lt_of_le_of_ne isThere (Ne.symm notOne)
  have isMatch := mem_candidateMatches_iff consistent filtered options
  have rivals_iff : ∀ other, other ∈ rivals host (store.candidateMatches q options) result ↔
      store.IsMatch q options other ∧ predicateSignature host other.node.predicate =
        predicateSignature host result.node.predicate := by
    intro other
    rw [mem_rivals_iff, isMatch]
  refine ⟨policy, _, ⟨result, (isMatch result).mp member, rivals_iff⟩, ?_, several, untied⟩
  intro other isRival
  obtain ⟨isOther, same⟩ := (rivals_iff other).mp isRival
  rw [← count_candidateMatches consistent isOther]
  -- the matches with the identifier are rivals
  unfold rivals withSignature
  rw [List.count_eq_countP, List.count_eq_countP, List.countP_map, List.countP_map,
    List.countP_filter]
  refine List.countP_congr fun third isThird => ?_
  simp only [Function.comp_apply, beq_iff_eq, Bool.and_eq_true, decide_eq_true_eq,
    and_iff_left_iff_imp]
  intro sameId
  have stored := ((isMatch third).mp isThird).1
  rw [sameId, isOther.1, Option.some.injEq] at stored
  rw [← stored, same]

/-- What a query answers in a reachable store accounts for the stored nodes that match, and the
query leaves the store as it was. An answer by authority may stop instead, where none of the
several candidates for a predicate ties with the greatest of their authorities. -/
theorem query_accounts {store : MemStore F} (reachable : Reachable store)
    (hasher : Hash.Order String) (host : Host F) (q : Query)
    (filtered : ∀ entity, q.entityFilter = some entity → .ent entity ∈ q.pattern.args)
    (options : QueryOptions F) :
    final (query hasher host q options) store = store ∧
      ((∃ answered, answer (query hasher host q options) store = .ok answered ∧
          Accounts host (store.IsMatch q options) options.policy answered.results
            answered.ambiguous) ∨
        answer (query hasher host q options) store = .error .panic ∧
          options.policy = .highestAuthority ∧
          ∃ group, store.Untied host q options group) := by
  have consistent := reachable.consistent
  have isMatch := mem_candidateMatches_iff consistent filtered options
  have finds := queryMatches_run store q options
  have ran := query_run finds hasher host
  cases arbitrated : arbitrate hasher host (store.candidateMatches q options) options.policy
      (some q.pattern) with
  | none =>
    rw [candidateMatches] at arbitrated
    rw [arbitrated] at ran
    exact ⟨final_error ran, .inr ⟨answer_error ran, untied_of_stops consistent filtered arbitrated⟩⟩
  | some answered =>
    have accounts := (arbitrate_accounts hasher host arbitrated).congr isMatch
    rw [candidateMatches] at arbitrated
    rw [arbitrated] at ran
    exact ⟨final_ok ran, .inl ⟨_, answer_ok ran, accounts⟩⟩

/-- The query for everything located in B, by B. -/
def locatedInBByB : Query := { locatedInB with entityFilter := some ⟨"B"⟩ }

/-- The query for everything located in B over two facts that are at odds, by B. -/
theorem query_accounts_dissent :
    answer (query (.asStored _) default locatedInBByB unanimously)
        (blank.run [.insert premise, .insert dissent]) = .ok ⟨[], true⟩ ∧
      Accounts default ((blank.run [.insert premise, .insert dissent]).IsMatch locatedInBByB
        unanimously) .unanimous [] true := by
  have reachable : Reachable (blank.run [.insert premise, .insert dissent]) :=
    (Reachable.empty _ _ _).run _
  have both : (blank.run [.insert premise, .insert dissent]).candidateMatches locatedInBByB
      unanimously = [⟨dissent, [("x", .ent ⟨"C"⟩)]⟩, ⟨premise, [("x", .ent ⟨"A"⟩)]⟩] := by decide
  have finds : queryMatches locatedInBByB unanimously
      (blank.run [.insert premise, .insert dissent]) =
        .ok [⟨dissent, [("x", .ent ⟨"C"⟩)]⟩, ⟨premise, [("x", .ent ⟨"A"⟩)]⟩]
          (blank.run [.insert premise, .insert dissent]) :=
    (queryMatches_run _ _ _).trans (congrArg (EStateM.Result.ok · _) both)
  have apart : dissent.predicate ≠ premise.predicate := by decide
  have refused : arbitrateGroup (.asStored _) default .unanimous
      [⟨dissent, [("x", .ent ⟨"C"⟩)]⟩, ⟨premise, [("x", .ent ⟨"A"⟩)]⟩] = some ([], true) :=
    arbitrateGroup_unanimous default (.asStored _) List.mem_cons_self
      (List.mem_cons_of_mem _ List.mem_cons_self) apart
  have policy : unanimously.policy = .unanimous := rfl
  have ran : query (.asStored _) default locatedInBByB unanimously
      (blank.run [.insert premise, .insert dissent]) =
        .ok ⟨[], true⟩ (blank.run [.insert premise, .insert dissent]) := by
    rw [query_run finds, arbitrate_some _ _ (List.cons_ne_nil _ _), policy, refused]
  have filtered : ∀ entity, locatedInBByB.entityFilter = some entity →
      .ent entity ∈ locatedInBByB.pattern.args := by
    rintro entity isFilter
    rw [← Option.some.inj isFilter]
    exact List.mem_cons_of_mem _ List.mem_cons_self
  obtain ⟨_, answers | stops⟩ := query_accounts reachable (.asStored _) default locatedInBByB
    filtered unanimously
  · obtain ⟨answered, isAnswer, accounts⟩ := answers
    rw [answer_ok ran] at isAnswer
    obtain rfl := Except.ok.inj isAnswer
    exact ⟨answer_ok ran, accounts⟩
  · rw [policy] at stops
    cases stops.2.1

end FactumStore

end Factum
