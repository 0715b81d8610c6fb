/-
This file proves what arbitration by authority answers, for authorities that are exact
numbers.

Matches are sub-grouped by canonical text, which tells the predicates of the parser apart,
so there is one winner for each predicate. What an answer leaves open is which of several
tied matches wins, and there it says that it is ambiguous. So it does not depend on the
order of the matches otherwise.
-/

import Factum.Distinct
import Factum.Ranked

namespace Factum

/-! ### Answers by authority -/

/-- One of the matches for each predicate that there is. -/
structure OnePerPredicate (found results : List (QueryResult ℚ)) : Prop where
  distinct : (results.map (·.node.predicate)).Nodup
  covered : ∀ result ∈ found, ∃ winner ∈ results, winner.node.predicate = result.node.predicate
  matched : ∀ winner ∈ results, winner ∈ found

/-- What `LatestWins` is to answer: a match for each predicate that none with the predicate
beats in authority, or in recency at the same authority. It is ambiguous when another match
ties with a winner. -/
structure LatestWinsAnswer (found : List (QueryResult ℚ)) (answer : Arbitrated ℚ) : Prop
    extends OnePerPredicate found answer.1 where
  unbeaten : ∀ winner ∈ answer.1, ∀ other ∈ found, other.node.predicate = winner.node.predicate →
    other.node.authority.value ≤ winner.node.authority.value ∧
      (other.node.authority.value = winner.node.authority.value →
        other.node.validity.recency ≤ winner.node.validity.recency)
  ambiguous : answer.2 = true ↔ ∃ winner ∈ answer.1, ∃ other ∈ found.erase winner,
    other.node.predicate = winner.node.predicate ∧ TiesLatest winner other

/-- A match that is less than 0.001 below the greatest authority for its predicate. -/
def NearHighest (found : List (QueryResult ℚ)) (result : QueryResult ℚ) : Prop :=
  ∀ other ∈ found, other.node.predicate = result.node.predicate →
    other.node.authority.value - result.node.authority.value < 1 / 1000

/-- What `HighestAuthority` is to answer: a match for each predicate that is near its greatest
authority. It is ambiguous when two matches for a predicate are. -/
structure HighestAuthorityAnswer (found : List (QueryResult ℚ)) (answer : Arbitrated ℚ) : Prop
    extends OnePerPredicate found answer.1 where
  near : ∀ winner ∈ answer.1, NearHighest found winner
  ambiguous : answer.2 = true ↔ ∃ result ∈ found, NearHighest found result ∧
    ∃ other ∈ found.erase result, other.node.predicate = result.node.predicate ∧
      NearHighest found other

/-! ### The order of the matches -/

/-- Two answers with the same flag, and with the same results when it is not set. -/
def AgreeUnlessAmbiguous (answer answer' : Arbitrated ℚ) : Prop :=
  answer.2 = answer'.2 ∧ (answer.2 = false → answer.1.Perm answer'.1)

section Order

variable {found found' : List (QueryResult ℚ)} {answer answer' : Arbitrated ℚ}

/-- Two winners for a predicate are told apart only by an ambiguous answer. -/
theorem OnePerPredicate.agree (results : OnePerPredicate found answer.1)
    (results' : OnePerPredicate found' answer'.1) (perm : found.Perm found')
    (flags : answer.2 = answer'.2)
    (differ : ∀ winner ∈ answer.1, ∀ winner' ∈ answer'.1,
      winner'.node.predicate = winner.node.predicate → winner' ≠ winner → answer.2 = true) :
    AgreeUnlessAmbiguous answer answer' := by
  refine ⟨flags, fun decided => ?_⟩
  have same : ∀ winner ∈ answer.1, ∀ winner' ∈ answer'.1,
      winner'.node.predicate = winner.node.predicate → winner' = winner := by
    intro winner isWinner winner' isWinner' predicates
    by_contra distinct
    have ambiguous := differ winner isWinner winner' isWinner' predicates distinct
    rw [decided] at ambiguous
    cases ambiguous
  refine (List.perm_ext_iff_of_nodup (results.distinct.of_map _)
    (results'.distinct.of_map _)).mpr fun winner => ?_
  constructor
  · intro isWinner
    obtain ⟨winner', isWinner', predicates⟩ :=
      results'.covered winner (perm.mem_iff.mp (results.matched winner isWinner))
    rw [← same winner isWinner winner' isWinner' predicates]
    exact isWinner'
  · intro isWinner'
    obtain ⟨winner', isWinner, predicates⟩ :=
      results.covered winner (perm.mem_iff.mpr (results'.matched winner isWinner'))
    rw [same winner' isWinner winner isWinner' predicates.symm]
    exact isWinner

/-- The winners for a predicate rank the same. -/
theorem LatestWinsAnswer.tiesLatest (isAnswer : LatestWinsAnswer found answer)
    (isAnswer' : LatestWinsAnswer found' answer') (perm : found.Perm found') {winner winner'}
    (isWinner : winner ∈ answer.1) (isWinner' : winner' ∈ answer'.1)
    (predicates : winner'.node.predicate = winner.node.predicate) :
    rank winner' = rank winner := by
  obtain ⟨authority, recency⟩ := isAnswer.unbeaten winner isWinner winner'
    (perm.mem_iff.mpr (isAnswer'.matched winner' isWinner')) predicates
  obtain ⟨authority', recency'⟩ := isAnswer'.unbeaten winner' isWinner' winner
    (perm.mem_iff.mp (isAnswer.matched winner isWinner)) predicates.symm
  have authorities := le_antisymm authority authority'
  rw [rank, rank, authorities, le_antisymm (recency authorities) (recency' authorities.symm)]

theorem tiesLatest_of_rank {winner other : QueryResult ℚ} (ranks : rank other = rank winner) :
    TiesLatest winner other := by
  obtain ⟨authorities, recencies⟩ := Prod.ext_iff.mp (congrArg ofLex ranks)
  have authorities : other.node.authority.value = winner.node.authority.value := authorities
  refine ⟨?_, recencies⟩
  rw [authorities, sub_self, abs_zero]
  norm_num

theorem LatestWinsAnswer.ambiguous_of_perm (isAnswer : LatestWinsAnswer found answer)
    (isAnswer' : LatestWinsAnswer found' answer') (perm : found.Perm found')
    (ambiguous : answer.2 = true) : answer'.2 = true := by
  obtain ⟨winner, isWinner, other, isOther, predicates, ties⟩ := isAnswer.ambiguous.mp ambiguous
  have member := perm.mem_iff.mp (isAnswer.matched winner isWinner)
  obtain ⟨winner', isWinner', same⟩ := isAnswer'.covered winner member
  refine isAnswer'.ambiguous.mpr ⟨winner', isWinner', ?_⟩
  by_cases differ : winner' = winner
  · rw [differ]
    exact ⟨other, (perm.erase winner).mem_iff.mp isOther, predicates, ties⟩
  · refine ⟨winner, (List.mem_erase_of_ne (Ne.symm differ)).mpr member, same.symm, ?_⟩
    exact tiesLatest_of_rank (isAnswer.tiesLatest isAnswer' perm isWinner isWinner' same).symm

/-- What `LatestWins` is to answer does not depend on the order of the matches. -/
theorem LatestWinsAnswer.agree (isAnswer : LatestWinsAnswer found answer)
    (isAnswer' : LatestWinsAnswer found' answer') (perm : found.Perm found') :
    AgreeUnlessAmbiguous answer answer' := by
  have flags : answer.2 = answer'.2 := Bool.eq_iff_iff.mpr
    ⟨isAnswer.ambiguous_of_perm isAnswer' perm, isAnswer'.ambiguous_of_perm isAnswer perm.symm⟩
  refine isAnswer.toOnePerPredicate.agree isAnswer'.toOnePerPredicate perm flags ?_
  intro winner isWinner winner' isWinner' predicates differ
  refine isAnswer.ambiguous.mpr ⟨winner, isWinner, winner', ?_, predicates, ?_⟩
  · exact (List.mem_erase_of_ne differ).mpr
      (perm.mem_iff.mpr (isAnswer'.matched winner' isWinner'))
  · exact tiesLatest_of_rank (isAnswer.tiesLatest isAnswer' perm isWinner isWinner' predicates)

theorem NearHighest.of_perm {result : QueryResult ℚ} (near : NearHighest found result)
    (perm : found.Perm found') : NearHighest found' result :=
  fun other member => near other (perm.mem_iff.mpr member)

theorem HighestAuthorityAnswer.ambiguous_of_perm (isAnswer : HighestAuthorityAnswer found answer)
    (isAnswer' : HighestAuthorityAnswer found' answer') (perm : found.Perm found')
    (ambiguous : answer.2 = true) : answer'.2 = true := by
  obtain ⟨result, member, near, other, isOther, predicates, nearOther⟩ :=
    isAnswer.ambiguous.mp ambiguous
  exact isAnswer'.ambiguous.mpr ⟨result, perm.mem_iff.mp member, near.of_perm perm, other,
    (perm.erase result).mem_iff.mp isOther, predicates, nearOther.of_perm perm⟩

/-- What `HighestAuthority` is to answer does not depend on the order of the matches. -/
theorem HighestAuthorityAnswer.agree (isAnswer : HighestAuthorityAnswer found answer)
    (isAnswer' : HighestAuthorityAnswer found' answer') (perm : found.Perm found') :
    AgreeUnlessAmbiguous answer answer' := by
  have flags : answer.2 = answer'.2 := Bool.eq_iff_iff.mpr
    ⟨isAnswer.ambiguous_of_perm isAnswer' perm, isAnswer'.ambiguous_of_perm isAnswer perm.symm⟩
  refine isAnswer.toOnePerPredicate.agree isAnswer'.toOnePerPredicate perm flags ?_
  intro winner isWinner winner' isWinner' predicates differ
  refine isAnswer.ambiguous.mpr ⟨winner, isAnswer.matched winner isWinner,
    isAnswer.near winner isWinner, winner', ?_, predicates, ?_⟩
  · exact (List.mem_erase_of_ne differ).mpr
      (perm.mem_iff.mpr (isAnswer'.matched winner' isWinner'))
  · exact (isAnswer'.near winner' isWinner').of_perm perm.symm

end Order

/-! ### What the code answers -/

section Exact

variable {host : Host ℚ} (hasher : Hash.Order String) {found : List (QueryResult ℚ)}

/-- The canonical texts of the predicates of some matches tell them apart. -/
def TellsMatches (host : Host ℚ) (found : List (QueryResult ℚ)) : Prop :=
  ∀ a ∈ found, ∀ b ∈ found, predicateSignature host a.node.predicate =
    predicateSignature host b.node.predicate → a.node.predicate = b.node.predicate

theorem TellsMatches.signature_iff (tells : TellsMatches host found) {a b : QueryResult ℚ}
    (isA : a ∈ found) (isB : b ∈ found) :
    predicateSignature host a.node.predicate = predicateSignature host b.node.predicate ↔
      a.node.predicate = b.node.predicate :=
  ⟨tells a isA b isB, fun same => by rw [same]⟩

/-- Parsed predicates are told apart. -/
theorem tellsMatches_of_produces (dates : host.TellsDates)
    (produced : ∀ result ∈ found, Parser.Produces host result.node.predicate) :
    TellsMatches host found :=
  fun a isA b isB same => canonicalPredicate_injective dates (produced a isA) (produced b isB) same

theorem mem_rivals_iff_of_tells (tells : TellsMatches host found) {result other : QueryResult ℚ}
    (member : result ∈ found) : other ∈ rivals host found result ↔
      other ∈ found ∧ other.node.predicate = result.node.predicate := by
  rw [mem_rivals_iff]
  exact and_congr_right fun isOther => tells.signature_iff isOther member

variable (host) in
theorem rivals_ne_nil {result : QueryResult ℚ} (member : result ∈ found) :
    rivals host found result ≠ [] :=
  List.ne_nil_of_mem ((mem_rivals_iff host).mpr ⟨member, rfl⟩)

/-- Another rival is another match with the predicate. -/
theorem mem_erase_rivals_iff (tells : TellsMatches host found) {result other : QueryResult ℚ}
    (member : result ∈ found) : other ∈ (rivals host found result).erase result ↔
      other ∈ found.erase result ∧ other.node.predicate = result.node.predicate := by
  rw [rivals, withSignature, List.erase_filter, List.mem_filter, decide_eq_true_iff]
  exact and_congr_right fun isOther =>
    tells.signature_iff (List.mem_of_mem_erase isOther) member

theorem Collected.onePerPredicate {answerOf : List (QueryResult ℚ) → Arbitrated ℚ}
    {answer : Arbitrated ℚ} (tells : TellsMatches host found)
    (collected : Collected host found answerOf answer) : OnePerPredicate found answer.1 where
  distinct := by
    refine List.Nodup.of_map (predicateSignature host) ?_
    rw [List.map_map]
    exact collected.distinct
  covered := by
    intro result member
    obtain ⟨winner, isWinner, same⟩ := collected.covered result member
    exact ⟨winner, isWinner, tells _ (collected.won winner isWinner).1 _ member same⟩
  matched := fun winner isWinner => (collected.won winner isWinner).1

theorem arbitrate_latestWins_answer (tells : TellsMatches host found) (pattern : Predicate) :
    ∃ answer, arbitrate hasher host found .latestWins (some pattern) = some answer ∧
      LatestWinsAnswer found answer := by
  have wins := fun result (member : result ∈ found) =>
    latestWinsOf_eq (rivals_ne_nil host member)
  have collected : Collected host found latestWinsOf _ := collected_subGroups host hasher
    fun result member => (wins result member).imp fun _ wins => ⟨wins.1, _, wins.2.2⟩
  -- each match that is given is what its own rivals answer
  have winners : ∀ winner ∈ (collectArbitrated
        ((subGroupByPredicate hasher host found).map latestWinsOf)).1, winner ∈ found ∧
      (∀ other ∈ rivals host found winner, rank other ≤ rank winner) ∧
      latestWinsOf (rivals host found winner) = ([winner], decide (∃ other ∈
        (rivals host found winner).erase winner, TiesLatest winner other)) := by
    intro winner isWinner
    obtain ⟨member, tied, isGiven⟩ := collected.won winner isWinner
    obtain ⟨best, _, greatest, isAnswer⟩ := wins winner member
    have same : winner = best := by
      rw [isAnswer] at isGiven
      exact (List.cons.inj (congrArg Prod.fst isGiven)).1.symm
    subst same
    exact ⟨member, greatest, isAnswer⟩
  refine ⟨_, arbitrate_latestWins host hasher found pattern,
    { collected.onePerPredicate tells with unbeaten := ?_, ambiguous := ?_ }⟩
  · intro winner isWinner other isOther predicates
    obtain ⟨member, greatest, _⟩ := winners winner isWinner
    have below := greatest other ((mem_rivals_iff_of_tells tells member).mpr ⟨isOther, predicates⟩)
    rcases Prod.Lex.le_iff.mp below with less | ⟨same, recency⟩
    · exact ⟨le_of_lt less, fun same => absurd same (ne_of_lt less)⟩
    · exact ⟨le_of_eq same, fun _ => recency⟩
  · rw [collected.ambiguous]
    refine exists_congr fun winner => and_congr_right fun isWinner => ?_
    obtain ⟨member, _, isAnswer⟩ := winners winner isWinner
    rw [isAnswer, decide_eq_true_iff]
    simp only [mem_erase_rivals_iff tells member, and_assoc]

/-- What `HighestAuthority` answers for a predicate, where it does not stop. -/
def highestGiven (sub : List (QueryResult ℚ)) : Arbitrated ℚ :=
  (highestAuthorityOf sub).getD ([], false)

theorem highestGiven_eq {sub : List (QueryResult ℚ)} (nonempty : sub ≠ [])
    (nonneg : ∀ result ∈ sub, 0 ≤ result.node.authority.value) :
    highestAuthorityOf sub = some (highestGiven sub) ∧ ∃ winner ∈ sub, NearTop sub winner ∧
      highestGiven sub = ([winner], decide (∃ other ∈ sub.erase winner, NearTop sub other)) := by
  obtain ⟨winner, member, near, isAnswer⟩ := highestAuthorityOf_eq nonempty nonneg
  have given : highestGiven sub = _ := congrArg (Option.getD · ([], false)) isAnswer
  exact ⟨by rw [isAnswer, given]; rfl, winner, member, near, given⟩

theorem arbitrate_highestGiven (nonneg : ∀ result ∈ found, 0 ≤ result.node.authority.value)
    (pattern : Predicate) :
    arbitrate hasher host found .highestAuthority (some pattern) =
      some (collectArbitrated ((subGroupByPredicate hasher host found).map highestGiven)) := by
  have answers : (subGroupByPredicate hasher host found).map highestAuthorityOf =
      (subGroupByPredicate hasher host found).map (some ∘ highestGiven) := by
    refine List.map_congr_left fun sub isSub => ?_
    have isGiven := (mem_map_subGroups_iff host hasher found id sub).mp (by simpa using isSub)
    obtain ⟨result, member, rfl⟩ := isGiven
    exact (highestGiven_eq (rivals_ne_nil host member) fun other isRival =>
      nonneg other ((mem_rivals_iff host).mp isRival).1).1
  rw [arbitrate_highestAuthority, mapM_eq_some, answers]
  · simp
  · rw [answers]
    simp

theorem arbitrate_highestAuthority_answer (tells : TellsMatches host found)
    (nonneg : ∀ result ∈ found, 0 ≤ result.node.authority.value) (pattern : Predicate) :
    ∃ answer, arbitrate hasher host found .highestAuthority (some pattern) = some answer ∧
      HighestAuthorityAnswer found answer := by
  have wins := fun result (member : result ∈ found) =>
    (highestGiven_eq (rivals_ne_nil host member)
      fun other isRival => nonneg other ((mem_rivals_iff host).mp isRival).1).2
  have collected : Collected host found highestGiven _ := collected_subGroups host hasher
    fun result member =>
      let ⟨winner, isRival, _, isAnswer⟩ := wins result member
      ⟨winner, isRival, _, isAnswer⟩
  have nearHighest : ∀ winner ∈ found, ∀ other, other.node.predicate = winner.node.predicate →
      (NearTop (rivals host found winner) other ↔ NearHighest found other) := by
    intro winner member other same
    simp only [NearTop, NearHighest, mem_rivals_iff_of_tells tells member, and_imp, same]
  -- each match that is given is what its own rivals answer
  have winners : ∀ winner ∈ (collectArbitrated
        ((subGroupByPredicate hasher host found).map highestGiven)).1, winner ∈ found ∧
      NearHighest found winner ∧ ((highestGiven (rivals host found winner)).2 = true ↔
        ∃ other ∈ found.erase winner, other.node.predicate = winner.node.predicate ∧
          NearHighest found other) := by
    intro winner isWinner
    obtain ⟨member, tied, isGiven⟩ := collected.won winner isWinner
    obtain ⟨best, _, near, isAnswer⟩ := wins winner member
    have same : winner = best := by
      rw [isAnswer] at isGiven
      exact (List.cons.inj (congrArg Prod.fst isGiven)).1.symm
    subst same
    refine ⟨member, (nearHighest winner member winner rfl).mp near, ?_⟩
    rw [isAnswer, decide_eq_true_iff]
    refine exists_congr fun other => ?_
    rw [mem_erase_rivals_iff tells member, and_assoc]
    exact and_congr_right fun _ => and_congr_right fun same => nearHighest winner member other same
  refine ⟨_, arbitrate_highestGiven hasher nonneg pattern,
    { collected.onePerPredicate tells with near := ?_, ambiguous := ?_ }⟩
  · exact fun winner isWinner => (winners winner isWinner).2.1
  · rw [collected.ambiguous]
    constructor
    · rintro ⟨winner, isWinner, isTied⟩
      obtain ⟨member, near, tied⟩ := winners winner isWinner
      exact ⟨winner, member, near, tied.mp isTied⟩
    · rintro ⟨result, member, near, another⟩
      obtain ⟨winner, isWinner, same⟩ := (collected.onePerPredicate tells).covered result member
      refine ⟨winner, isWinner, (winners winner isWinner).2.2.mpr ?_⟩
      by_cases differ : result = winner
      · rw [← differ]
        exact another
      · exact ⟨result, (List.mem_erase_of_ne differ).mpr member, same.symm, near⟩

/-- Authority decides between exact authorities in the unit interval: for each predicate one
match answers, a greatest one or one near it, and the answer is ambiguous when there are
others. In any order of the matches it is so for the same ones, and the answer is the same
when it is not. -/
theorem arbitrate_byAuthority (dates : host.TellsDates)
    (produced : ∀ result ∈ found, Parser.Produces host result.node.predicate)
    (unit : ∀ result ∈ found, result.node.authority.value ∈ Set.Icc (0 : ℚ) 1)
    (pattern : Predicate) :
    (∃ answer, arbitrate hasher host found .latestWins (some pattern) = some answer ∧
      LatestWinsAnswer found answer) ∧
    (∃ answer, arbitrate hasher host found .highestAuthority (some pattern) = some answer ∧
      HighestAuthorityAnswer found answer) ∧
    ∀ policy, policy = .latestWins ∨ policy = .highestAuthority →
      ∀ hasher' found', found.Perm found' → ∀ answer answer',
        arbitrate hasher host found policy (some pattern) = some answer →
        arbitrate hasher' host found' policy (some pattern) = some answer' →
        AgreeUnlessAmbiguous answer answer' := by
  have tells := tellsMatches_of_produces dates produced
  have nonneg := fun result member => (unit result member).1
  refine ⟨arbitrate_latestWins_answer hasher tells pattern,
    arbitrate_highestAuthority_answer hasher tells nonneg pattern, ?_⟩
  rintro policy isPolicy hasher' found' perm answer answer' answers answers'
  have tells' : TellsMatches host found' := fun a isA b isB =>
    tells a (perm.mem_iff.mpr isA) b (perm.mem_iff.mpr isB)
  rcases isPolicy with rfl | rfl
  · obtain ⟨_, isGiven, isAnswer⟩ := arbitrate_latestWins_answer hasher tells pattern
    obtain ⟨_, isGiven', isAnswer'⟩ := arbitrate_latestWins_answer hasher' tells' pattern
    rw [Option.some.inj (answers.symm.trans isGiven),
      Option.some.inj (answers'.symm.trans isGiven')]
    exact isAnswer.agree isAnswer' perm
  · obtain ⟨_, isGiven, isAnswer⟩ := arbitrate_highestAuthority_answer hasher tells nonneg pattern
    obtain ⟨_, isGiven', isAnswer'⟩ := arbitrate_highestAuthority_answer hasher' tells'
      (fun result member => nonneg result (perm.mem_iff.mpr member)) pattern
    rw [Option.some.inj (answers.symm.trans isGiven),
      Option.some.inj (answers'.symm.trans isGiven')]
    exact isAnswer.agree isAnswer' perm

end Exact

/-- A host for exact scores that are printed and read in tenths. -/
def exactHost : Host ℚ where
  f32Display v := Tenths.display (.ofNat (v * 10).floor.toNat)
  f32FromStr text := (Tenths.fromStr text).map fun v => mkRat v.count.val 10
  dateFormat := Tenths.host.dateFormat
  dateFromStr := Tenths.host.dateFromStr
  toRfc3339 := Tenths.host.toRfc3339
  datetimeFromStr := Tenths.host.datetimeFromStr
  strDebug := Tenths.host.strDebug

theorem exactHost_tellsDates : exactHost.TellsDates where
  date_numeral := Tenths.host_lawful.tellsDates.date_numeral
  date_injective := Tenths.host_lawful.tellsDates.date_injective

/-- A match with an authority in tenths. -/
def rated (id : String) (tenths : Nat) : QueryResult ℚ where
  node := { Node.new id ⟨.name "up", [.ent ⟨"a"⟩], []⟩ with authority := ⟨mkRat tenths 10⟩ }
  bindings := []

theorem rated_produced (id : String) (tenths : Nat) :
    Parser.Produces exactHost (rated id tenths).node.predicate := by
  refine .inl ⟨"(up @a)", ?_⟩
  show Parser.parsePredicate exactHost "(up @a)" = .ok ⟨.name "up", [.ent ⟨"a"⟩], []⟩
  decide +kernel

/-- Two matches for one predicate. -/
theorem arbitrate_byAuthority_rated :
    ∃ answer, arbitrate (.asStored String) exactHost [rated "m" 4, rated "n" 9] .latestWins
      (some ⟨.name "up", [.var "x"], []⟩) = some answer ∧
      LatestWinsAnswer [rated "m" 4, rated "n" 9] answer := by
  refine (arbitrate_byAuthority (.asStored String) exactHost_tellsDates ?_ ?_ _).1
  · intro result member
    rcases List.mem_pair.mp member with rfl | rfl <;> exact rated_produced _ _
  · intro result member
    rcases List.mem_pair.mp member with rfl | rfl <;> constructor <;> norm_num [rated]

end Factum
