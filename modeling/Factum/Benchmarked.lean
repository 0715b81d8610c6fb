/-
This file is about which nodes pass the benchmark with the packed codec.

The score of a node depends on the comparison of the node with what is carried of it, and
passes exactly where the two agree. So a node passes if its canonical text is long enough for
the gate on the bits, the registry knows its head, it has no more than three arguments and no
named ones, and each argument comes back from its first twelve characters.
-/

import Factum.Levels
import Factum.Recovered
import Factum.Total

namespace Factum

open PackedCodec

/-! ### What comes back -/

namespace PackedCodec

/-- The registry has a definition for a head. -/
def Knows (registry : MorphemeRegistry) : PredicateHead → Prop
  | .id id => (registry.lookupId id).isSome
  | .name name => (registry.resolve name).isSome

/-- A term becomes one that agrees with it. -/
def ComesBack (host : Host Binary32) (registry : MorphemeRegistry) (term : Term) : Prop :=
  ∃ later, carriedTerm host term = .ok later ∧ term.Matches registry (· = ·) later

section Carried

variable {host : Host Binary32} {registry : MorphemeRegistry}

/-- A head keeps its name exactly if the registry knows it. An unknown name takes the name of the
first definition. -/
theorem carriedHead_iff (registered : registry.Registered) (few : registry.byId.length ≤ 2 ^ 32)
    (head : PredicateHead) :
    (∃ name, carriedHead registry head = .ok name ∧
      registry.resolvedName head = registry.resolvedName (.name name)) ↔ Knows registry head := by
  simp only [registered.resolvedName_eq few, MorphemeRegistry.headName]
  cases head with
  | id id =>
    rw [Knows, carriedHead, headToIndex, UInt32.ofNat_toNat]
    cases found : registry.lookupId id with
    | none => simp [throw, throwThe, MonadExceptOf.throw]
    | some definition => simp [pure, Except.pure, found]
  | name name =>
    rw [Knows, carriedHead, headToIndex]
    cases resolved : registry.resolve name with
    | some id =>
      obtain ⟨definition, isAt, isName⟩ := (registered.resolve_iff few name id).mp resolved
      dsimp only
      rw [UInt32.ofNat_toNat, isAt]
      simp [pure, Except.pure, isName]
    | none =>
      dsimp only
      cases first : registry.lookupId ⟨UInt32.ofNat 0⟩ with
      | none => simp [throw, throwThe, MonadExceptOf.throw]
      | some definition =>
        have isFirst := (registered.resolve_iff few definition.name _).mpr ⟨definition, first, rfl⟩
        have differs : ¬ definition.name = name := by
          rintro rfl
          rw [resolved] at isFirst
          cases isFirst
        simp [pure, Except.pure, differs]

theorem carriedTerms_iff (terms : List Term) :
    (∃ later, carriedTerms host terms = .ok later ∧
      Term.MatchesAll registry (· = ·) terms later) ↔
        ∀ term ∈ terms, ComesBack host registry term := by
  induction terms with
  | nil => exact iff_of_true ⟨[], rfl, trivial⟩ (List.forall_mem_nil _)
  | cons term rest inductionHypothesis =>
    rw [List.forall_mem_cons, ← inductionHypothesis, ComesBack, carriedTerms]
    cases carriedTerm host term with
    | error stop => simp [bind, Except.bind]
    | ok first =>
      cases carriedTerms host rest with
      | error stop => simp [bind, Except.bind]
      | ok later => simp [bind, Except.bind, pure, Except.pure, Term.MatchesAll]

theorem length_carriedTerms {terms : List Term} : ∀ {later : List Term},
    carriedTerms host terms = .ok later → later.length = terms.length := by
  induction terms with
  | nil =>
    rintro later ⟨⟩
    rfl
  | cons term rest inductionHypothesis =>
    intro later ran
    rw [carriedTerms] at ran
    cases isFirst : carriedTerm host term with
    | error stop =>
      rw [isFirst] at ran
      cases ran
    | ok first =>
      cases areRest : carriedTerms host rest with
      | error stop =>
        rw [isFirst, areRest] at ran
        cases ran
      | ok others =>
        rw [isFirst, areRest] at ran
        cases ran
        rw [List.length_cons, List.length_cons, inductionHypothesis areRest]

/-- A predicate comes back exactly if its head, its number of arguments, and each argument do. -/
theorem carried_iff (registered : registry.Registered) (few : registry.byId.length ≤ 2 ^ 32)
    (pred : Predicate) :
    (∃ later, carried host registry pred = .ok later ∧ pred.Agrees registry later) ↔
      Knows registry pred.head ∧ pred.args.length ≤ 3 ∧ pred.named = [] ∧
        ∀ arg ∈ pred.args, ComesBack host registry arg := by
  obtain ⟨head, args, named⟩ := pred
  have isAgrees : ∀ name later, Predicate.Agrees registry ⟨head, args, named⟩
      ⟨.name name, later, []⟩ ↔ registry.resolvedName head = registry.resolvedName (.name name) ∧
        Term.MatchesAll registry (· = ·) args later ∧ named = [] := by
    intro name later
    refine and_congr_right fun _ => and_congr_right fun _ => ?_
    cases named with
    | nil => exact iff_of_true trivial rfl
    | cons entry rest => exact iff_of_false id (List.cons_ne_nil _ _)
  rw [← carriedHead_iff registered few]
  constructor
  · rintro ⟨later, ran, agrees⟩
    rw [carried] at ran
    cases isHead : carriedHead registry head with
    | error stop =>
      rw [isHead] at ran
      cases ran
    | ok name =>
      cases areArgs : carriedTerms host (args.take 3) with
      | error stop =>
        rw [isHead, areArgs] at ran
        cases ran
      | ok terms =>
        rw [isHead, areArgs] at ran
        cases ran
        obtain ⟨sameName, matches_, isNil⟩ := (isAgrees name terms).mp agrees
        have isLength := length_carriedTerms areArgs
        rw [← SemEquiv.length_of_matchesAll matches_, List.length_take] at isLength
        have short : args.length ≤ 3 := by omega
        rw [List.take_of_length_le short] at areArgs
        exact ⟨⟨name, rfl, sameName⟩, short, isNil, (carriedTerms_iff args).mp ⟨terms, areArgs,
          matches_⟩⟩
  · rintro ⟨⟨name, isHead, sameName⟩, short, isNil, comeBack⟩
    obtain ⟨terms, areArgs, matches_⟩ := (carriedTerms_iff args).mpr comeBack
    refine ⟨⟨.name name, terms, []⟩, ?_, (isAgrees name terms).mpr ⟨sameName, matches_, isNil⟩⟩
    rw [carried, isHead, List.take_of_length_le short, areArgs]
    rfl

/-- A text is kept whole exactly if it has at most twelve characters, all in the charset. -/
theorem kept_eq_iff (chars : List Char) :
    kept chars = chars ↔ chars.length ≤ 12 ∧ ∀ c ∈ chars, c ∈ charset := by
  constructor
  · intro same
    constructor
    · rw [← same]
      exact (List.takeWhile_sublist _).length_le.trans (List.length_take_le 12 chars)
    · intro c member
      rw [← same, kept] at member
      have kept_ := List.mem_takeWhile_imp (p := fun c => decide (c ∈ charset)) member
      exact of_decide_eq_true kept_
  · rintro ⟨short, all⟩
    rw [kept, List.take_of_length_le short, List.takeWhile_eq_self_iff]
    exact fun c member => decide_eq_true (all c member)

/-- A text is read back as it is exactly if it is kept whole and there is something to keep. -/
theorem readBack_eq_iff (text : String) :
    readBack (kept text.toList) = text ↔
      text ≠ "" ∧ text.toList.length ≤ 12 ∧ ∀ c ∈ text.toList, c ∈ charset := by
  rw [← kept_eq_iff]
  have filler : kept "UNKNOWN".toList = "UNKNOWN".toList := by decide
  unfold readBack
  cases isKept : kept text.toList with
  | nil =>
    refine iff_of_false (fun same => ?_) fun both => both.1 ?_
    · rw [← show "UNKNOWN" = text from same, filler] at isKept
      cases isKept
    · exact String.toList_inj.mp both.2.symm
  | cons c rest =>
    show String.ofList (c :: rest) = text ↔ _
    rw [← String.toList_inj, String.toList_ofList]
    refine ⟨fun same => ⟨?_, same⟩, fun both => both.2⟩
    rintro rfl
    cases same

/-- An entity comes back exactly if its name is kept whole. -/
theorem comesBack_ent_iff (entity : EntityId) : ComesBack host registry (.ent entity) ↔
    entity.asStr ≠ "" ∧ entity.asStr.toList.length ≤ 12 ∧
      ∀ c ∈ entity.asStr.toList, c ∈ charset := by
  have isCarried : carriedTerm host (.ent entity) =
      .ok (.ent ⟨readBack (kept entity.asStr.toList)⟩) := rfl
  rw [← readBack_eq_iff, ComesBack, isCarried]
  constructor
  · rintro ⟨later, ⟨⟩, same⟩
    exact (congrArg EntityId.asStr (Term.ent.inj same)).symm
  · intro same
    have isEntity : entity = ⟨readBack (kept entity.asStr.toList)⟩ := congrArg EntityId.mk same.symm
    exact ⟨_, rfl, congrArg Term.ent isEntity⟩

end Carried

end PackedCodec

/-! ### Scores -/

namespace SemEquiv

variable {host : Host Binary32} {registry : MorphemeRegistry} {a b : Node Binary32}

theorem threshold_bounds : 49 / 100 ≤ Benchmark.defaultThreshold.value ∧
    Benchmark.defaultThreshold.value ≤ 51 / 100 := by
  have near := abs_le.mp (value_lit_near 5 1)
  push_cast at near
  unfold Benchmark.defaultThreshold
  exact ⟨by linarith [near.1], by linarith [near.2]⟩

theorem passes_exact : F32.le Benchmark.defaultThreshold (F32.lit 1 0 : Binary32) = true := by
  refine decide_eq_true ?_
  rw [value_one]
  linarith [threshold_bounds.2]

theorem passes_metadataDrift :
    F32.le Benchmark.defaultThreshold (F32.lit 85 2 : Binary32) = true := by
  have near := (abs_le.mp (value_lit_near 85 2)).1
  push_cast at near
  exact decide_eq_true (by linarith [threshold_bounds.2])

theorem not_passes_different :
    F32.le Benchmark.defaultThreshold (F32.lit 0 0 : Binary32) = false := by
  refine decide_eq_false (not_le.mpr ?_)
  rw [value_zero]
  linarith [threshold_bounds.1]

/-- A node with wrong values never passes. -/
theorem not_passes_wrongValues (score : Binary32) (differences : List String) :
    F32.le Benchmark.defaultThreshold (EquivResult.wrongValues score differences).score =
      false := by
  have most : F32.le Benchmark.defaultThreshold (F32.lit 3 1 : Binary32) = false := by
    have near := (abs_le.mp (value_lit_near 3 1)).2
    push_cast at near
    exact decide_eq_false (not_le.mpr (by linarith [threshold_bounds.1]))
  rw [EquivResult.wrongValues]
  dsimp only
  by_cases few : F32.le score (F32.lit 3 1) = true
  · rw [if_pos few]
    have below : score.value ≤ (F32.lit 3 1 : Binary32).value := of_decide_eq_true few
    have above : ¬ Benchmark.defaultThreshold.value ≤ (F32.lit 3 1 : Binary32).value :=
      of_decide_eq_false most
    exact decide_eq_false fun passes => above (passes.trans below)
  · rw [if_neg few]
    exact most

/-- A node passes exactly if the predicates agree. -/
theorem passes_iff (narrow : a.predicate.Narrow) :
    F32.le Benchmark.defaultThreshold (compare host registry a b).score = true ↔
      a.predicate.Agrees registry b.predicate := by
  have concludes := comparePredicates_concludes host registry a.predicate b.predicate
  by_cases agrees : a.predicate.Agrees registry b.predicate
  · refine iff_of_true ?_ agrees
    have isExact := concludes.tells.exact.mpr agrees
    unfold compare
    simp only [isExact]
    generalize collectMetadataDiffs host a b = metadata
    cases metadata with
    | nil => exact passes_exact
    | cons note rest => exact passes_metadataDrift
  · refine iff_of_false ?_ agrees
    unfold compare
    generalize comparePredicates host registry a.predicate b.predicate = result at concludes ⊢
    cases concludes with
    | different notShape notAgree reason =>
      exact Bool.eq_false_iff.mp not_passes_different
    | counted isShape quiet diffs isDiffs =>
      have differs := (Predicate.leafDiffers_iff _ _ isShape).mpr agrees
      have positive := (showsIn32_iff _).mp
        (Predicate.noticed_of_narrow _ _ narrow differs)
      unfold Tally.conclude
      simp only [if_pos positive]
      exact Bool.eq_false_iff.mp (not_passes_wrongValues _ _)

end SemEquiv

namespace Benchmark

section Packed

variable {host : Host Binary32} {registry : MorphemeRegistry}

/-! ### Answers -/

theorem answers_ofTerm {α : Type} {result : Except (Stop LatentError) α}
    (answers : Answers result) : Answers (ofTerm result) := by
  rcases answers with ⟨value, rfl⟩ | ⟨error, rfl⟩
  · exact .inl ⟨value, rfl⟩
  · exact .inr ⟨.term error, rfl⟩

theorem answers_decodeError {α : Type} (message : String) :
    Answers (decodeError message : Except (Stop LatentError) α) := .inr ⟨_, rfl⟩

theorem answers_reconstructTerm (tells : host.TellsDepth) (s : String) (typeCode : UInt8) :
    Answers (reconstructTerm host s typeCode) := by
  unfold reconstructTerm
  split
  · exact .inl ⟨_, rfl⟩
  · exact .inl ⟨_, rfl⟩
  · cases (Literal.decFromStr s : Except (CoreError Binary32) Literal) with
    | ok literal => exact .inl ⟨_, rfl⟩
    | error error => exact answers_decodeError _
  · exact .inl ⟨_, rfl⟩
  · cases host.dateFromStr s with
    | ok d => exact .inl ⟨_, rfl⟩
    | error error => exact answers_decodeError _
  · exact .inl ⟨_, rfl⟩
  · exact .inl ⟨_, rfl⟩
  · cases parseUnsigned (2 ^ 128) s.toList with
    | ok nanos => exact .inl ⟨_, rfl⟩
    | error error => exact answers_decodeError _
  · unfold reconstructCompound
    rcases Parser.answers_parse (F := Binary32) tells ("(" ++ s ++ ")") with
      ⟨nodes, parsed⟩ | ⟨error, fails⟩
    · rw [parsed]
      cases nodes with
      | nil => exact answers_decodeError _
      | cons node rest => exact .inl ⟨_, rfl⟩
    · rw [fails]
      exact answers_decodeError _
  · exact .inl ⟨_, rfl⟩
  · exact answers_decodeError _

theorem answers_carriedTerms (tells : host.TellsDepth) (terms : List Term) :
    Answers (carriedTerms host terms) := by
  induction terms with
  | nil => exact .inl ⟨[], rfl⟩
  | cons term rest inductionHypothesis =>
    rw [carriedTerms]
    rcases answers_ofTerm (answers_reconstructTerm tells
      (readBack (kept (termValueString host term).1.toList)) (termValueString host term).2) with
      ⟨first, isFirst⟩ | ⟨error, fails⟩
    · rcases inductionHypothesis with ⟨later, areLater⟩ | ⟨error, fails⟩
      · rw [carriedTerm, isFirst, areLater]
        exact .inl ⟨_, rfl⟩
      · rw [carriedTerm, isFirst, fails]
        exact .inr ⟨_, rfl⟩
    · rw [carriedTerm, fails]
      exact .inr ⟨_, rfl⟩

theorem answers_carried (tells : host.TellsDepth) (registry : MorphemeRegistry) (pred : Predicate) :
    Answers (carried host registry pred) := by
  rw [carried, carriedHead]
  cases registry.lookupId ⟨UInt32.ofNat (headToIndex registry pred.head)⟩ with
  | none => exact .inr ⟨_, rfl⟩
  | some morpheme =>
    rcases answers_carriedTerms tells (pred.args.take 3) with ⟨later, areLater⟩ | ⟨error, fails⟩
    · rw [areLater]
      exact .inl ⟨_, rfl⟩
    · rw [fails]
      exact .inr ⟨_, rfl⟩

/-! ### One node -/

/-- A node that passes: its text is long enough, the registry knows its head, and all of its
arguments come back. -/
structure Survives (host : Host Binary32) (registry : MorphemeRegistry) (gates : AntiCheatGates)
    (node : Node Binary32) : Prop where
  budget : gates.checkDimensionBudget packedCodecDim (canonical host node).utf8ByteSize = .ok ()
  head : Knows registry node.predicate.head
  args : node.predicate.args.length ≤ 3
  named : node.predicate.named = []
  terms : ∀ arg ∈ node.predicate.args, ComesBack host registry arg

/-- A node that the packed codec has numbers for. -/
structure Encodable (registry : MorphemeRegistry) (node : Node Binary32) : Prop where
  scored : node.Scored
  narrow : node.predicate.Narrow
  index : headToIndex registry node.predicate.head ≤ 10000

/-- The entry of a node in the details of a benchmark. -/
structure Entry (gates : AntiCheatGates) (host : Host Binary32) (registry : MorphemeRegistry)
    (node : Node Binary32) (detail : NodeResult) : Prop where
  nodeId : detail.nodeId = node.id.asStr
  passes : F32.le defaultThreshold detail.score = true ↔ Survives host registry gates node

theorem survives_iff (registered : registry.Registered) (few : registry.byId.length ≤ 2 ^ 32)
    {gates : AntiCheatGates} {node : Node Binary32}
    (budget : gates.checkDimensionBudget packedCodecDim (canonical host node).utf8ByteSize =
      .ok ()) :
    Survives host registry gates node ↔
      ∃ later, carried host registry node.predicate = .ok later ∧
        node.predicate.Agrees registry later := by
  rw [carried_iff registered few]
  exact ⟨fun survives => ⟨survives.head, survives.args, survives.named, survives.terms⟩,
    fun ⟨head, args, named, terms⟩ => ⟨budget, head, args, named, terms⟩⟩

/-- The gate on the bits answers. -/
theorem answers_checkDimensionBudget {gates : AntiCheatGates}
    (divides : gates.dimensionBudgetDivisor ≠ 0) (vectorDim canonicalBytes : Nat) :
    Answers (gates.checkDimensionBudget vectorDim canonicalBytes) := by
  unfold AntiCheatGates.checkDimensionBudget
  rw [if_neg divides]
  dsimp only
  split_ifs
  · exact .inl ⟨(), rfl⟩
  · exact .inr ⟨_, rfl⟩
  · exact .inl ⟨(), rfl⟩

/-- A vector within its budget is decoded. -/
theorem bench_of_budget {gates : AntiCheatGates} {node : Node Binary32}
    (budget : gates.checkDimensionBudget packedCodecDim (canonical host node).utf8ByteSize =
      .ok ()) :
    benchSingleNodeGated host registry (packed host registry) gates node =
      decodeAndCompare host registry (packed host registry) node
        (gates.applyLatentOperation (PackedCodec.encodeNode host registry node)) := by
  have budget' : gates.checkDimensionBudget (PackedCodec.encodeNode host registry node).dim
      (canonical host node).utf8ByteSize = .ok () := budget
  have isEncoded : (packed host registry).encodeNode node =
      .ok (PackedCodec.encodeNode host registry node) := rfl
  rw [benchSingleNodeGated, isEncoded]
  simp only [bind, Except.bind, budget']

/-- A vector beyond its budget scores nothing. -/
theorem bench_of_refused {gates : AntiCheatGates} {node : Node Binary32} {message : String}
    (refused : gates.checkDimensionBudget packedCodecDim (canonical host node).utf8ByteSize =
      .error (.fail message)) :
    benchSingleNodeGated host registry (packed host registry) gates node =
      .ok ⟨node.id.asStr, F32.lit 0 0, .different, ["GATE 1 FAILED: " ++ message]⟩ := by
  have refused' : gates.checkDimensionBudget (PackedCodec.encodeNode host registry node).dim
      (canonical host node).utf8ByteSize = .error (.fail message) := refused
  have isEncoded : (packed host registry).encodeNode node =
      .ok (PackedCodec.encodeNode host registry node) := rfl
  rw [benchSingleNodeGated, isEncoded]
  simp only [bind, Except.bind, refused']
  rfl

/-- What a node adds to the details, whether it is scored or fails. -/
theorem take_node (tells : host.TellsDepth) (registered : registry.Registered)
    (few : registry.byId.length ≤ 2 ^ 32) {gates : AntiCheatGates}
    (divides : gates.dimensionBudgetDivisor ≠ 0) {node : Node Binary32}
    (encodable : Encodable registry node) (progress : Progress) :
    ∃ detail after, progress.take defaultThreshold
        (benchSingleNodeGated host registry (packed host registry) gates) node = .ok after ∧
      Entry gates host registry node detail ∧
      after.details = progress.details ++ [detail] ∧
      after.passedCount = progress.passedCount +
        [detail].countP fun detail => F32.le defaultThreshold detail.score := by
  have counts : ∀ detail : NodeResult, (if F32.le defaultThreshold detail.score = true then
      progress.passedCount + 1 else progress.passedCount) = progress.passedCount +
        [detail].countP fun detail => F32.le defaultThreshold detail.score := by
    intro detail
    rw [List.countP_singleton]
    split_ifs <;> rfl
  have scored : ∀ result : NodeResult,
      benchSingleNodeGated host registry (packed host registry) gates node = .ok result →
      Entry gates host registry node result → ∃ detail after, progress.take defaultThreshold
          (benchSingleNodeGated host registry (packed host registry) gates) node = .ok after ∧
        Entry gates host registry node detail ∧
        after.details = progress.details ++ [detail] ∧
        after.passedCount = progress.passedCount +
          [detail].countP fun detail => F32.le defaultThreshold detail.score := by
    intro result ran entry
    refine ⟨result, ⟨progress.details ++ [result], progress.failures,
      progress.scores ++ [result.score], if F32.le defaultThreshold result.score = true then
        progress.passedCount + 1 else progress.passedCount⟩, ?_, entry, rfl, counts result⟩
    rw [Progress.take, ran]
  rcases answers_checkDimensionBudget divides packedCodecDim
    (canonical host node).utf8ByteSize with ⟨⟨⟩, budget⟩ | ⟨message, refused⟩
  · obtain ⟨authority, -, decodes⟩ := decode_gated host registry gates encodable.index
      encodable.scored
    have survives := survives_iff registered few budget
    have ran : benchSingleNodeGated host registry (packed host registry) gates node =
        decodeAndCompare host registry (packed host registry) node
          (gates.applyLatentOperation (PackedCodec.encodeNode host registry node)) :=
      bench_of_budget budget
    have decoded : (packed host registry).decode
        (gates.applyLatentOperation (PackedCodec.encodeNode host registry node)) = _ := decodes
    rw [decodeAndCompare, decoded] at ran
    rcases answers_carried tells registry node.predicate with
      ⟨later, isLater⟩ | ⟨error, fails⟩
    · rw [isLater] at ran
      refine scored _ ran ⟨rfl, ?_⟩
      rw [survives, isLater]
      refine (SemEquiv.passes_iff encodable.narrow).trans ?_
      exact ⟨fun agrees => ⟨later, rfl, agrees⟩, fun ⟨other, same, agrees⟩ =>
        Except.ok.inj same ▸ agrees⟩
    · rw [fails] at ran
      refine ⟨⟨node.id.asStr, F32.lit 0 0, .different, [error.display]⟩,
        ⟨progress.details ++ [⟨node.id.asStr, F32.lit 0 0, .different, [error.display]⟩],
          progress.failures ++ ["Node " ++ node.id.asStr ++ ": " ++ error.display],
          progress.scores ++ [F32.lit 0 0], progress.passedCount⟩, ?_, ⟨rfl, ?_⟩, rfl, ?_⟩
      · rw [Progress.take, ran]
        rfl
      · rw [survives, fails]
        exact iff_of_false (Bool.eq_false_iff.mp SemEquiv.not_passes_different) (by simp)
      · rw [List.countP_singleton, if_neg (Bool.eq_false_iff.mp SemEquiv.not_passes_different)]
        rfl
  · refine scored ⟨node.id.asStr, F32.lit 0 0, .different, ["GATE 1 FAILED: " ++ message]⟩
      (bench_of_refused refused) ⟨rfl, ?_⟩
    refine iff_of_false (Bool.eq_false_iff.mp SemEquiv.not_passes_different) fun survives => ?_
    have budget := survives.budget
    rw [refused] at budget
    cases budget

/-! ### All nodes -/

/-- The loop adds an entry for each node, and counts those that pass. -/
theorem foldlM_take (tells : host.TellsDepth) (registered : registry.Registered)
    (few : registry.byId.length ≤ 2 ^ 32) {gates : AntiCheatGates}
    (divides : gates.dimensionBudgetDivisor ≠ 0) (nodes : List (Node Binary32)) :
    ∀ progress : Progress, (∀ node ∈ nodes, Encodable registry node) →
      ∃ details after, nodes.foldlM (Progress.take defaultThreshold
          (benchSingleNodeGated host registry (packed host registry) gates)) progress = .ok after ∧
        List.Forall₂ (Entry gates host registry) nodes details ∧
        after.details = progress.details ++ details ∧
        after.passedCount = progress.passedCount +
          details.countP fun detail => F32.le defaultThreshold detail.score := by
  induction nodes with
  | nil => exact fun progress _ => ⟨[], progress, rfl, .nil, (List.append_nil _).symm, rfl⟩
  | cons node rest inductionHypothesis =>
    intro progress encodable
    obtain ⟨detail, next, taken, entry, details, count⟩ := take_node tells registered few divides
      (encodable node List.mem_cons_self) progress
    obtain ⟨later, after, ran, entries, details', count'⟩ := inductionHypothesis next
      fun other member => encodable other (List.mem_cons_of_mem node member)
    refine ⟨detail :: later, after, ?_, .cons entry entries, ?_, ?_⟩
    · rw [List.foldlM_cons, taken]
      exact ran
    · rw [details', details, List.append_assoc, List.singleton_append]
    · rw [count', count, Nat.add_assoc, ← List.countP_append, List.singleton_append]

/-- The split takes only nodes that are given. -/
theorem mem_splitLoop (testCount : Nat) (nodes : List (Node Binary32)) :
    ∀ (i : Nat) (split : List (Node Binary32) × List (Node Binary32)) (node : Node Binary32),
      node ∈ (AntiCheatGates.splitLoop testCount nodes i split).2 →
        node ∈ split.2 ∨ node ∈ nodes := by
  induction nodes with
  | nil => exact fun _ _ _ member => .inl member
  | cons first rest inductionHypothesis =>
    intro i split node member
    rw [AntiCheatGates.splitLoop] at member
    split_ifs at member
    · rcases inductionHypothesis _ _ node member with taken | later
      · rcases List.mem_append.mp taken with old | isFirst
        · exact .inl old
        · rw [List.mem_singleton.mp isFirst]
          exact .inr List.mem_cons_self
      · exact .inr (List.mem_cons_of_mem first later)
    · exact (inductionHypothesis _ _ node member).imp_right (List.mem_cons_of_mem first)

theorem mem_of_mem_testNodes {gates : AntiCheatGates} {nodes : List (Node Binary32)}
    {node : Node Binary32} (member : node ∈ testNodes gates nodes) : node ∈ nodes := by
  unfold testNodes AntiCheatGates.trainTestSplit at member
  split_ifs at member with all
  · dsimp only at member
    split_ifs at member <;> exact member
  · dsimp only at member
    split_ifs at member
    · exact member
    · exact (mem_splitLoop _ nodes 0 ([], []) node member).resolve_left List.not_mem_nil

/-- The gated benchmark of the packed codec passes exactly the nodes that survive, and says which
fraction of them does. -/
theorem gated_exact (tells : host.TellsDepth) (registered : registry.Registered)
    (few : registry.byId.length ≤ 2 ^ 32) (gates : AntiCheatGates)
    (divides : gates.dimensionBudgetDivisor ≠ 0) (nodes : List (Node Binary32))
    (encodable : ∀ node ∈ nodes, Encodable registry node) :
    ∃ result, benchSemanticRoundtripGatedWith host registry (packed host registry) nodes gates =
        .ok result ∧
      result.total = (testNodes gates nodes).length ∧
      List.Forall₂ (Entry gates host registry) (testNodes gates nodes) result.details ∧
      (0 < result.total → result.passed =
        Binary32.ofNat (result.details.countP fun detail => F32.le defaultThreshold detail.score) /
          Binary32.ofNat result.total) := by
  obtain ⟨details, after, ran, entries, isDetails, isCount⟩ := foldlM_take tells registered few
    divides (testNodes gates nodes) ⟨[], [], [], 0⟩
      fun node member => encodable node (mem_of_mem_testNodes member)
  refine ⟨summarize (testNodes gates nodes).length after, ?_, rfl, ?_, fun some_ => ?_⟩
  · rw [benchSemanticRoundtripGatedWith, benchNodes, ran]
    rfl
  · show List.Forall₂ _ _ after.details
    rw [isDetails]
    exact entries
  · have some' : 0 < (testNodes gates nodes).length := some_
    have passed : (summarize (testNodes gates nodes).length after).passed =
        Binary32.ofNat after.passedCount / Binary32.ofNat (testNodes gates nodes).length :=
      if_pos some'
    have same : (summarize (testNodes gates nodes).length after).details = details := isDetails
    rw [passed, isCount, same, Nat.zero_add]
    rfl

end Packed

theorem longPlace_encodable : Encodable places longPlace :=
  ⟨by decide +kernel, by simp [longPlace, Node.new, Predicate.Narrow, Term.Narrow, Term.NarrowAll,
    Term.NarrowNamed], by decide +kernel⟩

theorem default_tellsDepth : (default : Host Binary32).TellsDepth where
  f32_text := by
    rintro text message ⟨⟩
    decide
  date_text := by
    rintro text message ⟨⟩
    decide
  datetime_text := by
    rintro text message ⟨⟩
    decide

/-- The property at two such places, of which one is for the test. -/
theorem gated_exact_longPlace : ∃ result,
    benchSemanticRoundtripGatedWith default places (packed default places) [longPlace, longPlace]
        shifting = .ok result ∧
      result.total = 1 ∧
      List.Forall₂ (Entry shifting default places) [longPlace] result.details := by
  have isTest : testNodes shifting [longPlace, longPlace] = [longPlace] := by decide +kernel
  have registered : places.Registered := .register .new _
  obtain ⟨result, ran, total, entries, -⟩ := gated_exact default_tellsDepth registered
    (by decide +kernel) shifting (by decide +kernel) [longPlace, longPlace]
    (by
      intro node member
      rw [List.eq_of_mem_replicate (n := 2) member]
      exact longPlace_encodable)
  rw [isTest] at total entries
  exact ⟨result, ran, total, entries⟩

end Benchmark

end Factum
