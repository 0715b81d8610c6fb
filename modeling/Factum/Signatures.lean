/-
This file is about the arguments that the schema verifier lets through.

A signature lists parameters, some of them optional. An argument is given to a parameter by
its name or by its position: a named one to the parameter with its key, and the positional
ones to the parameters that no key names, in their order. The verifier only compares numbers,
so a key that names no parameter, or an optional parameter, can stand in for a required one
that is missing. The arguments fit the parameters exactly when the keys are different
parameters and the positional arguments reach the last required parameter that is not named.
-/

import Mathlib.Data.List.DropRight
import Factum.Builtins

namespace Factum

variable {F : Type}

/-! ### Signatures -/

/-- A parameter of a signature. -/
structure Param where
  name : String
  type : String
  optional : Bool
deriving DecidableEq

/-- `name:Type`, or `name:Type?` where the parameter is optional. -/
def Param.text (param : Param) : List Char :=
  param.name.toList ++ ':' :: param.type.toList ++ if param.optional then ['?'] else []

/-- A parameter that a signature lists as one, and as what it is. -/
structure Param.Plain (param : Param) : Prop where
  noComma : ',' ∉ param.text
  noArrow : ¬ ['-', '>'] <:+: param.text
  trimmed : trim param.text = param.text
  required : param.optional = false → param.type.toList.getLast? ≠ some '?'

/-- A signature with at least one parameter, whose names are different. -/
structure Signature where
  params : List Param
  result : String
  plain : ∀ param ∈ params, param.Plain
  nonempty : params ≠ []
  distinct : (params.map Param.name).Nodup

/-- The parameters of a signature, as it lists them. -/
def Signature.listed (signature : Signature) : List Char :=
  [',', ' '].intercalate (signature.params.map Param.text)

/-- `name:Type, name:Type?, ... -> T`. -/
def Signature.raw (signature : Signature) : String :=
  String.ofList (signature.listed ++ ' ' :: '-' :: '>' :: ' ' :: signature.result.toList)

/-! ### How a signature is read -/

theorem Param.text_ne_nil (param : Param) : param.text ≠ [] := by
  rw [text]
  simp

/-- A parameter ends with a question mark exactly if it is optional. -/
theorem Param.Plain.getLast?_text {param : Param} (plain : param.Plain) :
    (param.text.getLast? != some '?') = !param.optional := by
  rw [text]
  cases optional : param.optional with
  | true =>
    rw [if_pos rfl, List.getLast?_append]
    rfl
  | false =>
    have notMark := plain.required optional
    cases isType : param.type.toList.getLast? with
    | none => simp [List.getLast?_append, List.getLast?_cons, isType]
    | some last =>
      rw [isType] at notMark
      simpa [List.getLast?_append, List.getLast?_cons, isType] using notMark

/-- Spaces around a text are trimmed. -/
theorem trim_spaced {front text back : List Char} (isFront : ∀ c ∈ front, isWhitespace c = true)
    (isBack : ∀ c ∈ back, isWhitespace c = true) :
    trim (front ++ text ++ back) = trim text := by
  have backwards : ∀ c ∈ back.reverse, isWhitespace c = true :=
    fun c member => isBack c (List.mem_reverse.mp member)
  rw [trim, trim, List.append_assoc, List.dropWhile_append_of_pos isFront,
    List.dropWhile_append]
  split_ifs with blank
  · rw [List.isEmpty_iff.mp blank, List.dropWhile_eq_nil_iff.mpr isBack]
  · rw [List.reverse_append, List.dropWhile_append_of_pos backwards]

/-- The texts between the commas of a list of parameters. -/
theorem map_trim_splitOn {texts : List (List Char)} (nonempty : texts ≠ [])
    (noComma : ∀ text ∈ texts, ',' ∉ text) (front : List Char)
    (isFront : ∀ c ∈ front, isWhitespace c = true) (noCommaFront : ',' ∉ front) :
    ((front ++ ([',', ' '].intercalate texts ++ [' '])).splitOn ',').map trim =
      texts.map trim := by
  have isSpace : ∀ c ∈ [' '], isWhitespace c = true := List.forall_mem_singleton.mpr rfl
  induction texts generalizing front with
  | nil => exact absurd rfl nonempty
  | cons text rest inductionHypothesis =>
    obtain ⟨here, later⟩ := List.forall_mem_cons.mp noComma
    cases rest with
    | nil =>
      rw [List.intercalate_singleton, ← List.append_assoc, List.splitOn_eq_singleton]
      · rw [List.map_singleton, List.map_singleton, trim_spaced isFront isSpace]
      · simp [noCommaFront, here]
    | cons next rest =>
      have split := inductionHypothesis (List.cons_ne_nil _ _) later [' '] isSpace (by decide)
      have isText : front ++ ([',', ' '].intercalate (text :: next :: rest) ++ [' ']) =
          (front ++ text) ++
            ',' :: ([' '] ++ ([',', ' '].intercalate (next :: rest) ++ [' '])) := by
        rw [List.intercalate_cons_cons]
        simp
      have noCommaText : ',' ∉ front ++ text := by simp [noCommaFront, here]
      have trimText : trim (front ++ text) = trim text := by
        rw [← List.append_nil (front ++ text), trim_spaced isFront (List.forall_mem_nil _)]
      rw [isText, List.splitOn_append_cons_self, List.splitOn_eq_singleton noCommaText,
        List.map_append, split, List.map_singleton, trimText]
      rfl

/-- What is before an arrow has no arrow. -/
theorem beforeArrow_append {front : List Char} (noArrow : ¬ ['-', '>'] <:+: front)
    (rest : List Char) : beforeArrow (front ++ ' ' :: '-' :: '>' :: rest) = front ++ [' '] := by
  induction front with
  | nil => rfl
  | cons c front inductionHypothesis =>
    have noArrow' : ¬ ['-', '>'] <:+: front := fun isInfix =>
      noArrow (isInfix.trans (List.suffix_cons c front).isInfix)
    have notArrow : ∀ tail, ¬ (c = '-' ∧ front ++ ' ' :: '-' :: '>' :: rest = '>' :: tail) := by
      rintro tail ⟨rfl, isTail⟩
      cases front with
      | nil => cases isTail
      | cons d front =>
        obtain ⟨rfl, _⟩ := List.cons.inj isTail
        exact noArrow ⟨[], front, rfl⟩
    rw [List.cons_append, beforeArrow, inductionHypothesis noArrow']
    · rfl
    · exact fun tail isDash isTail => notArrow tail ⟨isDash, isTail⟩

theorem noArrow_append_comma {front back : List Char} (noFront : ¬ ['-', '>'] <:+: front)
    (noBack : ¬ ['-', '>'] <:+: back) : ¬ ['-', '>'] <:+: front ++ ',' :: ' ' :: back := by
  induction front with
  | nil =>
    simp only [List.nil_append, List.infix_cons_iff, List.cons_prefix_cons]
    rintro (⟨isDash, _⟩ | ⟨isDash, _⟩ | isBack)
    · cases isDash
    · cases isDash
    · exact noBack isBack
  | cons c front inductionHypothesis =>
    rw [List.infix_cons_iff] at noFront
    rw [List.cons_append, List.infix_cons_iff]
    rintro (isArrow | isLater)
    · obtain ⟨rfl, isEnd⟩ := List.cons_prefix_cons.mp isArrow
      cases front with
      | nil => cases (List.cons_prefix_cons.mp isEnd).1
      | cons d front =>
        obtain ⟨rfl, _⟩ := List.cons_prefix_cons.mp isEnd
        exact noFront (.inl ⟨front, rfl⟩)
    · exact inductionHypothesis (fun isInfix => noFront (.inr isInfix)) isLater

/-- Texts without an arrow make none when they are listed with commas. -/
theorem noArrow_intercalate {texts : List (List Char)}
    (noArrow : ∀ text ∈ texts, ¬ ['-', '>'] <:+: text) :
    ¬ ['-', '>'] <:+: [',', ' '].intercalate texts := by
  induction texts with
  | nil => decide
  | cons text rest inductionHypothesis =>
    obtain ⟨here, later⟩ := List.forall_mem_cons.mp noArrow
    cases rest with
    | nil =>
      rw [List.intercalate_singleton]
      exact here
    | cons next rest =>
      rw [List.intercalate_cons_cons, List.append_assoc]
      exact noArrow_append_comma here (inductionHypothesis later)

/-- A signature is read as its parameters. -/
theorem Signature.signatureParams_raw (signature : Signature) :
    signatureParams signature.raw.toList = signature.params.map Param.text := by
  have texts : ∀ {property : List Char → Prop},
      (∀ param : Param, param.Plain → property param.text) →
      ∀ text ∈ signature.params.map Param.text, property text := by
    intro property each text member
    obtain ⟨param, isParam, rfl⟩ := List.mem_map.mp member
    exact each param (signature.plain param isParam)
  have noArrow := noArrow_intercalate (texts fun _ plain => plain.noArrow)
  have nonempty : signature.params.map Param.text ≠ [] :=
    fun isNil => signature.nonempty (List.map_eq_nil_iff.mp isNil)
  have split := map_trim_splitOn nonempty (texts fun _ plain => plain.noComma) [] nofun nofun
  have trimmed : (signature.params.map Param.text).map trim = signature.params.map Param.text :=
    List.map_congr_left (texts fun _ plain => plain.trimmed) |>.trans (List.map_id _)
  rw [List.nil_append, trimmed] at split
  rw [signatureParams, raw, String.toList_ofList, listed, beforeArrow_append noArrow, split]
  refine List.filter_eq_self.mpr (texts fun param _ => ?_)
  rw [Bool.not_eq_true', List.isEmpty_eq_false_iff]
  exact param.text_ne_nil

/-- The verifier compares numbers: there are at least as many arguments as required parameters,
and at most as many as parameters. -/
theorem Signature.arityFault_eq_none_iff (signature : Signature) (provided : Nat) :
    arityFault signature.raw.toList provided = none ↔
      signature.params.countP (fun param => !param.optional) ≤ provided ∧
        provided ≤ signature.params.length := by
  have hasArrow : decide (['-', '>'] <:+: signature.raw.toList) = true := by
    refine decide_eq_true ⟨signature.listed ++ [' '], ' ' :: signature.result.toList, ?_⟩
    rw [raw, String.toList_ofList]
    simp
  have hasParams : (signature.params.map Param.text).isEmpty = false := by
    rw [List.isEmpty_eq_false_iff]
    exact fun isNil => signature.nonempty (List.map_eq_nil_iff.mp isNil)
  have isRequired : (signature.params.map Param.text).countP
      (fun param => param.getLast? != some '?') =
        signature.params.countP fun param => !param.optional := by
    rw [List.countP_map]
    exact List.countP_congr fun param member => by
      rw [Function.comp, (signature.plain param member).getLast?_text]
  simp only [arityFault, signature.signatureParams_raw, hasArrow, hasParams, isRequired,
    List.length_map, Bool.not_true, Bool.or_false, Bool.false_eq_true, if_false]
  split_ifs with few many
  · exact iff_of_false nofun fun ⟨enough, _⟩ => absurd few (not_lt.mpr enough)
  · exact iff_of_false nofun fun ⟨_, notMany⟩ => absurd many (not_lt.mpr notMany)
  · exact iff_of_true rfl ⟨not_lt.mp few, not_lt.mp many⟩

/-! ### Arguments and parameters -/

/-- The parameters that no key names. -/
def unnamedParams (params : List Param) (predicate : Predicate) : List Param :=
  params.filter fun param => param.name ∉ predicate.named.map Prod.fst

/-- The parameters that the arguments are given to: a positional argument to the unnamed
parameter at its position, a named one to the parameter with its key. -/
def assigned (params : List Param) (predicate : Predicate) : List (Option Param) :=
  (List.range predicate.args.length).map (fun i => (unnamedParams params predicate)[i]?) ++
    predicate.named.map fun argument => params.find? fun param => param.name == argument.1

/-- The arguments fit the parameters. -/
structure ArgumentsFit (params : List Param) (predicate : Predicate) : Prop where
  /-- Every argument has a parameter. -/
  placed : none ∉ assigned params predicate
  /-- No parameter is provided twice. -/
  once : (assigned params predicate).Nodup
  /-- Every required parameter is provided. -/
  required : ∀ param ∈ params, param.optional = false → some param ∈ assigned params predicate

/-- The keys are different parameters. -/
structure KeysFit (params : List Param) (predicate : Predicate) : Prop where
  different : (predicate.named.map Prod.fst).Nodup
  known : ∀ key ∈ predicate.named.map Prod.fst, key ∈ params.map Param.name

/-- The number of positional arguments that reach the last required parameter that is not
named. -/
def reach (params : List Param) (predicate : Predicate) : Nat :=
  ((unnamedParams params predicate).rdropWhile Param.optional).length

section Assigned

variable {params : List Param} {predicate : Predicate}

theorem mem_unnamedParams {param : Param} : param ∈ unnamedParams params predicate ↔
    param ∈ params ∧ param.name ∉ predicate.named.map Prod.fst := by
  rw [unnamedParams, List.mem_filter, decide_eq_true_eq]

theorem name_of_find? {key : String} {param : Param}
    (found : params.find? (fun other => other.name == key) = some param) : param.name = key :=
  beq_iff_eq.mp (List.find?_some (p := fun other : Param => other.name == key) found)

/-- A parameter is found by its name. -/
theorem find?_name (distinct : (params.map Param.name).Nodup) {param : Param}
    (member : param ∈ params) :
    params.find? (fun other => other.name == param.name) = some param := by
  cases found : params.find? (fun other => other.name == param.name) with
  | none =>
    have notFound := List.find?_eq_none.mp found param member
    exact absurd (beq_self_eq_true param.name) notFound
  | some other =>
    rw [List.inj_on_of_nodup_map distinct (List.mem_of_find?_eq_some found) member
      (name_of_find? found)]

/-- Different names leave room for the positional arguments where there are not more arguments
than parameters. -/
theorem length_args_le (distinct : (params.map Param.name).Nodup)
    (few : predicate.args.length + predicate.named.length ≤ params.length) :
    predicate.args.length ≤ (unnamedParams params predicate).length := by
  have named : (params.filter fun param =>
      !decide (param.name ∉ predicate.named.map Prod.fst)).length ≤ predicate.named.length := by
    have keys : (predicate.named.map Prod.fst).length = predicate.named.length :=
      List.length_map Prod.fst
    rw [← List.length_map Param.name, ← keys]
    refine (List.subperm_of_subset (distinct.sublist (List.filter_sublist.map _)) ?_).length_le
    intro name member
    obtain ⟨param, isNamed, rfl⟩ := List.mem_map.mp member
    simpa using (List.mem_filter.mp isNamed).2
  have all := List.length_eq_length_filter_add (l := params)
    fun param => decide (param.name ∉ predicate.named.map Prod.fst)
  rw [unnamedParams]
  omega

/-- Where there are enough parameters for them, the positional arguments are given to the first
ones. -/
theorem map_getElem?_range {α : Type} {items : List α} {count : Nat}
    (enough : count ≤ items.length) :
    (List.range count).map (fun i => items[i]?) = (items.take count).map some := by
  refine List.ext_getElem? fun i => ?_
  rw [List.getElem?_map, List.getElem?_map, List.getElem?_take]
  rcases Nat.lt_or_ge i count with less | notLess
  · have isThere : items[i]? = some items[i] := List.getElem?_eq_getElem (less.trans_le enough)
    rw [List.getElem?_range less, if_pos less, isThere]
    exact congrArg some isThere
  · rw [List.getElem?_eq_none (by rw [List.length_range]; exact notLess), if_neg notLess.not_gt]
    rfl

/-- An unnamed parameter is provided exactly if enough arguments are positional. -/
theorem some_mem_assigned_iff (distinct : (params.map Param.name).Nodup) {i : Nat} {param : Param}
    (isAt : (unnamedParams params predicate)[i]? = some param) :
    some param ∈ assigned params predicate ↔ i < predicate.args.length := by
  have nodup : (unnamedParams params predicate).Nodup := distinct.of_map.filter _
  have isThere := List.getElem?_eq_some_iff.mp isAt
  have unnamed := (mem_unnamedParams.mp (List.mem_of_getElem? isAt)).2
  rw [assigned, List.mem_append, List.mem_map, List.mem_map]
  constructor
  · rintro (⟨j, isArg, isAt'⟩ | ⟨argument, isNamed, found⟩)
    · have isThere' := List.getElem?_eq_some_iff.mp isAt'
      have same : j = i := (nodup.getElem_inj_iff).mp (isThere'.2.trans isThere.2.symm)
      exact same ▸ List.mem_range.mp isArg
    · rw [name_of_find? found] at unnamed
      exact absurd (List.mem_map_of_mem isNamed) unnamed
  · exact fun less => .inl ⟨i, List.mem_range.mpr less, isAt⟩

/-- No required parameter is beyond the reach. -/
theorem lt_reach {i : Nat} {param : Param}
    (isAt : (unnamedParams params predicate)[i]? = some param)
    (isRequired : param.optional = false) : i < reach params predicate := by
  by_contra beyond
  rw [← List.rdropWhile_append_rtakeWhile (p := Param.optional)
      (l := unnamedParams params predicate),
    List.getElem?_append_right (not_lt.mp beyond)] at isAt
  have optional := List.mem_rtakeWhile_imp (List.mem_of_getElem? isAt)
  rw [isRequired] at optional
  cases optional

/-- The last parameter within the reach is required. -/
theorem required_at_reach (positive : 0 < reach params predicate) :
    ∃ param, (unnamedParams params predicate)[reach params predicate - 1]? = some param ∧
      param.optional = false := by
  have nonempty := List.length_pos_iff.mp positive
  refine ⟨_, ?_, Bool.eq_false_iff.mpr (List.rdropWhile_last_not Param.optional _ nonempty)⟩
  have isLast := List.getElem?_eq_getElem (Nat.sub_one_lt_of_lt positive)
  rw [← List.getLast_eq_getElem nonempty] at isLast
  obtain ⟨rest, isAll⟩ := List.rdropWhile_prefix Param.optional (unnamedParams params predicate)
  nth_rewrite 1 [← isAll]
  rw [reach, List.getElem?_append_left (Nat.sub_one_lt_of_lt positive)]
  exact isLast

/-- Where there are not more arguments than parameters, they fit exactly if the keys do and the
positional ones reach the last required parameter that is not named. -/
theorem argumentsFit_iff (distinct : (params.map Param.name).Nodup)
    (few : predicate.args.length + predicate.named.length ≤ params.length) :
    ArgumentsFit params predicate ↔
      KeysFit params predicate ∧ reach params predicate ≤ predicate.args.length := by
  constructor
  · rintro ⟨placed, once, required⟩
    refine ⟨⟨?_, ?_⟩, ?_⟩
    · have named : ((predicate.named.map Prod.fst).map fun key =>
          params.find? fun param => param.name == key).Nodup := by
        rw [List.map_map]
        exact (List.nodup_append.mp once).2.1
      exact named.of_map
    · intro key isKey
      obtain ⟨argument, isNamed, rfl⟩ := List.mem_map.mp isKey
      cases found : params.find? (fun param => param.name == argument.1) with
      | none =>
        refine absurd (List.mem_append_right _ ?_) placed
        exact List.mem_map.mpr ⟨argument, isNamed, found⟩
      | some param =>
        rw [← name_of_find? found]
        exact List.mem_map_of_mem (List.mem_of_find?_eq_some found)
    · rcases Nat.eq_zero_or_pos (reach params predicate) with isZero | positive
      · exact isZero.le.trans (Nat.zero_le _)
      · obtain ⟨param, isAt, isRequired⟩ := required_at_reach positive
        have isParam := (mem_unnamedParams.mp (List.mem_of_getElem? isAt)).1
        have provided := required param isParam isRequired
        exact Nat.le_of_pred_lt ((some_mem_assigned_iff distinct isAt).mp provided)
  · rintro ⟨⟨different, known⟩, reaches⟩
    have room := length_args_le distinct few
    have positional := map_getElem?_range room
    refine ⟨?_, ?_, ?_⟩
    · rw [assigned, positional, List.mem_append, not_or]
      refine ⟨fun isNone => ?_, fun isNone => ?_⟩
      · obtain ⟨_, _, ⟨⟩⟩ := List.mem_map.mp isNone
      obtain ⟨argument, isNamed, notFound⟩ := List.mem_map.mp isNone
      obtain ⟨param, isParam, isKey⟩ := List.mem_map.mp (known _ (List.mem_map_of_mem isNamed))
      rw [← isKey, find?_name distinct isParam] at notFound
      cases notFound
    · rw [assigned, positional]
      refine List.nodup_append.mpr ⟨?_, ?_, ?_⟩
      · exact ((distinct.of_map.filter _).sublist (List.take_sublist _ _)).map
          (Option.some_injective _)
      · have keyed : ((predicate.named.map Prod.fst).map fun key =>
            params.find? fun param => param.name == key).Nodup := by
          refine different.map_on fun key isKey key' isKey' same => ?_
          obtain ⟨param, isParam, rfl⟩ := List.mem_map.mp (known key isKey)
          rw [find?_name distinct isParam] at same
          exact name_of_find? same.symm
        rw [List.map_map] at keyed
        exact keyed
      · intro given isPositional given' isNamed same
        obtain ⟨param, isFirst, rfl⟩ := List.mem_map.mp isPositional
        obtain ⟨argument, member, rfl⟩ := List.mem_map.mp isNamed
        have unnamed := (mem_unnamedParams.mp (List.mem_of_mem_take isFirst)).2
        rw [name_of_find? same.symm] at unnamed
        exact unnamed (List.mem_map_of_mem member)
    · intro param isParam isRequired
      by_cases isNamed : param.name ∈ predicate.named.map Prod.fst
      · obtain ⟨argument, member, isKey⟩ := List.mem_map.mp isNamed
        refine List.mem_append_right _ (List.mem_map.mpr ⟨argument, member, ?_⟩)
        rw [isKey, find?_name distinct isParam]
      · obtain ⟨i, isAt⟩ := List.mem_iff_getElem?.mp (mem_unnamedParams.mpr ⟨isParam, isNamed⟩)
        exact (some_mem_assigned_iff distinct isAt).mpr
          (lt_of_lt_of_le (lt_reach isAt isRequired) reaches)

end Assigned

/-! ### What the verifier passes -/

/-- The verifier passes no more arguments than there are parameters. -/
theorem length_le_of_pass {registry : MorphemeRegistry} {node : Node F}
    {definition : MorphemeDef} {signature : Signature}
    (isHead : registry.lookupHead node.predicate.head = some definition)
    (hasForm : definition.signature.raw = signature.raw)
    (passes : (SchemaVerifier registry).verify node = .pass) :
    node.predicate.args.length + node.predicate.named.length ≤ signature.params.length := by
  simp only [SchemaVerifier, isHead, hasForm] at passes
  cases fault : arityFault signature.raw.toList
      (node.predicate.args.length + node.predicate.named.length) with
  | none => exact ((signature.arityFault_eq_none_iff _).mp fault).2
  | some reason =>
    rw [fault] at passes
    cases passes

/-- The arguments of a node that the verifier passes fit the parameters exactly if the keys are
different parameters and the positional arguments reach the last required parameter that is not
named. -/
theorem verify_fits_iff (registry : MorphemeRegistry) (node : Node F) (definition : MorphemeDef)
    (signature : Signature)
    (isHead : registry.lookupHead node.predicate.head = some definition)
    (hasForm : definition.signature.raw = signature.raw)
    (passes : (SchemaVerifier registry).verify node = .pass) :
    ArgumentsFit signature.params node.predicate ↔ KeysFit signature.params node.predicate ∧
      reach signature.params node.predicate ≤ node.predicate.args.length :=
  argumentsFit_iff signature.distinct (length_le_of_pass isHead hasForm passes)

/-- The signature of an acquisition. -/
def acquiredBy : Signature where
  params := [⟨"target", "Organization", false⟩, ⟨"acquirer", "Organization", false⟩,
    ⟨"date", "Date", false⟩, ⟨"amount", "Dec", true⟩]
  result := "Assertion"
  plain := by
    have plain : ∀ param ∈ [(⟨"target", "Organization", false⟩ : Param),
        ⟨"acquirer", "Organization", false⟩, ⟨"date", "Date", false⟩, ⟨"amount", "Dec", true⟩],
        ',' ∉ param.text ∧ ¬ ['-', '>'] <:+: param.text ∧ trim param.text = param.text ∧
          (param.optional = false → param.type.toList.getLast? ≠ some '?') := by
      decide +kernel
    intro param member
    obtain ⟨noComma, noArrow, trimmed, required⟩ := plain param member
    exact ⟨noComma, noArrow, trimmed, required⟩
  nonempty := List.cons_ne_nil _ _
  distinct := by decide +kernel

/-- A registry with the definition of an acquisition. -/
def acquisitions : MorphemeRegistry :=
  (MorphemeRegistry.new.register ⟨⟨0⟩, "acquired-by", .relation,
    ⟨"target:Organization, acquirer:Organization, date:Date, amount:Dec? -> Assertion"⟩,
    "Acquisition relationship", .adopted⟩).2

/-- An acquisition without a date, whose amount is named. -/
def undated : Node Rat := Node.new "n1" ⟨.name "acquired-by", [.ent ⟨"ACME"⟩, .ent ⟨"BIG-CORP"⟩],
  [("amount", .lit (.dec ⟨5000000, by decide⟩ 0))]⟩

/-- The verifier passes an acquisition in which the amount stands in for the date. -/
theorem undated_passes : ¬ ∀ (registry : MorphemeRegistry) (node : Node Rat)
    (definition : MorphemeDef) (signature : Signature),
    registry.lookupHead node.predicate.head = some definition →
      definition.signature.raw = signature.raw →
      (SchemaVerifier registry).verify node = .pass →
      ArgumentsFit signature.params node.predicate := by
  intro every
  have fits := every acquisitions undated
    ⟨⟨0⟩, "acquired-by", .relation, ⟨acquiredBy.raw⟩, "Acquisition relationship", .adopted⟩
    acquiredBy (by decide +kernel) rfl (by decide +kernel)
  have provided := fits.required ⟨"date", "Date", false⟩ (by decide +kernel) rfl
  exact absurd provided (by decide +kernel)

theorem verify_fits_iff_undated :
    ArgumentsFit acquiredBy.params undated.predicate ↔ KeysFit acquiredBy.params undated.predicate ∧
      reach acquiredBy.params undated.predicate ≤ undated.predicate.args.length :=
  verify_fits_iff acquisitions undated
    ⟨⟨0⟩, "acquired-by", .relation, ⟨acquiredBy.raw⟩, "Acquisition relationship", .adopted⟩
    acquiredBy (by decide +kernel) rfl (by decide +kernel)

end Factum
