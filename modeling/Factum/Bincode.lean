/-
This file embeds how the persistent backend writes a node as bytes and reads it back.

The codec is generated from the types: the fields of a record one after the other,
the variant of an enumeration before its fields. One field is an exception: a note
that is absent is skipped when writing, for the sake of JSON, but a positional
reader reads every field, so it looks for the tag of a note that is not there. A
node is read back exactly when it has a note.
-/

import Factum.Rocks
import Factum.Library.Wire
import Mathlib.Data.Nat.Pairing
import Mathlib.Logic.Equiv.Nat
import Std.Data.String.ToInt

namespace Factum

open Stateful Wire

/-- What the serialization libraries do with the types that are not of the program: a float
is its bits, a date and an instant are their texts, and each reads back. -/
structure Serde (F : Type) where
  toBits : F → UInt32
  fromBits : UInt32 → F
  fromBits_toBits : ∀ v, fromBits (toBits v) = v
  dateText : NaiveDate → String
  dateFromText : String → Except String NaiveDate
  dateFromText_dateText : ∀ d, dateFromText (dateText d) = .ok d
  datetimeText : DateTime → String
  datetimeFromText : String → Except String DateTime
  datetimeFromText_datetimeText : ∀ t, datetimeFromText (datetimeText t) = .ok t
  errorText : ReadError → String

namespace Bincode

variable {F : Type} (serde : Serde F)

/-! ### Writing -/

/-- A span: two words of four bytes. -/
def serializeSpan (span : Span) : List UInt8 :=
  [littleEndian 4 span.start.toNat, littleEndian 4 span.stop.toNat].flatten

/-- A model: its name and its version. -/
def serializeModelRef (model : ModelRef) : List UInt8 :=
  [stringBytes model.name, stringBytes model.version].flatten

/-- A date with a time, as its text. -/
def serializeDateTime (t : DateTime) : List UInt8 := stringBytes (serde.datetimeText t)

/-- A validity: its variant and the bounds of a window. -/
def serializeValidity : Validity → List UInt8
  | .forever => [variant 0].flatten
  | .window from_ until_ =>
    [variant 1, serializeDateTime serde from_, optionBytes (serializeDateTime serde) until_].flatten

/-- A provenance: its variant and the fields of that. -/
def serializeProvenance : Provenance → List UInt8
  | .verbatim doc span => [variant 0, stringBytes doc.asStr, serializeSpan span].flatten
  | .summary doc span => [variant 1, stringBytes doc.asStr, serializeSpan span].flatten
  | .extracted doc span model =>
    [variant 2, stringBytes doc.asStr, serializeSpan span, serializeModelRef model].flatten
  | .derived from_ rule => [variant 3, stringBytes from_.asStr, stringBytes rule.asStr].flatten
  | .asserted by_ => [variant 4, stringBytes by_.asStr].flatten

/-- A duration: its seconds and its nanoseconds. -/
def serializeDuration (d : Duration) : List UInt8 :=
  [littleEndian 8 d.secs.toNat, littleEndian 4 d.nanos.val].flatten

/-- A literal: its variant and its value. -/
def serializeLiteral : Literal → List UInt8
  | .dec mantissa scale => [variant 0, littleEndianSigned 16 mantissa.val, [scale]].flatten
  | .str text => [variant 1, stringBytes text].flatten
  | .date d => [variant 2, stringBytes (serde.dateText d)].flatten
  | .dur d => [variant 3, serializeDuration d].flatten
  | .bool b => [variant 4, boolBytes b].flatten
  | .uri text => [variant 5, stringBytes text].flatten

/-- A head: its variant, and an index or a name. -/
def serializeHead : PredicateHead → List UInt8
  | .id id => [variant 0, littleEndian 4 id.index.toNat].flatten
  | .name name => [variant 1, stringBytes name].flatten

mutual

/-- A term: its variant and what is in it. -/
def serializeTerm : Term → List UInt8
  | .var name => [variant 0, stringBytes name].flatten
  | .ent entity => [variant 1, stringBytes entity.asStr].flatten
  | .lit literal => [variant 2, serializeLiteral serde literal].flatten
  | .compound pred => [variant 3, serializePredicate pred].flatten
  | .list items => [variant 4, littleEndian 8 items.length, serializeTerms items].flatten

/-- A predicate: its head and its two lists of arguments. -/
def serializePredicate : Predicate → List UInt8
  | ⟨head, args, named⟩ =>
    [serializeHead head, littleEndian 8 args.length, serializeTerms args,
      littleEndian 8 named.length, serializeNamed named].flatten

/-- Terms, one after the other. -/
def serializeTerms : List Term → List UInt8
  | [] => []
  | term :: rest => serializeTerm term ++ serializeTerms rest

/-- Named arguments, each with its key first. -/
def serializeNamed : List (String × Term) → List UInt8
  | [] => []
  | entry :: rest => [stringBytes entry.1, serializeTerm entry.2].flatten ++ serializeNamed rest

end

/-- A status: its variant. -/
def serializeStatus : NodeStatus → List UInt8
  | .active => [variant 0].flatten
  | .retracted => [variant 1].flatten
  | .pending => [variant 2].flatten

/-- A note that is absent writes no bytes. -/
def serializeNote : Option String → List UInt8
  | none => []
  | some text => optionBytes stringBytes (some text)

/-- The fields before the note. -/
def serializeFields (node : Node F) : List UInt8 :=
  [stringBytes node.id.asStr, serializePredicate serde node.predicate,
    serializeValidity serde node.validity, serializeProvenance node.provenance,
    littleEndian 4 (serde.toBits node.confidence.value).toNat,
    littleEndian 4 (serde.toBits node.authority.value).toNat,
    littleEndian 4 node.permissions.bits.toNat,
    seqBytes (fun id => stringBytes id.asStr) node.deps,
    serializeStatus node.status].flatten

/-- The bytes of a node. -/
def serialize (node : Node F) : List UInt8 :=
  serializeFields serde node ++ serializeNote node.note

/-! ### Reading -/

/-- Read a span. -/
def deserializeSpan : Reader Span := do
  let start ← u32
  let stop ← u32
  return ⟨start, stop⟩

/-- Read a model. -/
def deserializeModelRef : Reader ModelRef := do
  let name ← string
  let version ← string
  return ⟨name, version⟩

/-- Read a date with a time from its text. -/
def deserializeDateTime : Reader DateTime := parsed serde.datetimeFromText

/-- Read a validity. -/
def deserializeValidity : Reader Validity := do
  match ← word 4 with
  | 0 => return .forever
  | 1 => do
    let from_ ← deserializeDateTime serde
    let until_ ← option (deserializeDateTime serde)
    return .window from_ until_
  | index => throw (.invalidVariant index)

/-- Read a provenance. -/
def deserializeProvenance : Reader Provenance := do
  match ← word 4 with
  | 0 => do
    let doc ← string
    let span ← deserializeSpan
    return .verbatim ⟨doc⟩ span
  | 1 => do
    let doc ← string
    let span ← deserializeSpan
    return .summary ⟨doc⟩ span
  | 2 => do
    let doc ← string
    let span ← deserializeSpan
    let model ← deserializeModelRef
    return .extracted ⟨doc⟩ span model
  | 3 => do
    let from_ ← string
    let rule ← string
    return .derived ⟨from_⟩ ⟨rule⟩
  | 4 => do
    let by_ ← string
    return .asserted ⟨by_⟩
  | index => throw (.invalidVariant index)

/-- Seconds and nanoseconds; whole seconds among the nanoseconds are carried. -/
def deserializeDuration : Reader Duration := do
  let secs ← u64
  let nanos ← word 4
  if 2 ^ 64 ≤ secs.toNat + nanos / 1000000000 then
    throw (.custom "overflow deserializing Duration")
  return ⟨secs + UInt64.ofNat (nanos / 1000000000), ⟨nanos % 1000000000, Nat.mod_lt _ (by decide)⟩⟩

/-- Read a decimal. -/
def deserializeDec : Reader Literal := do
  let mantissa ← signed 16
  let scale ← u8
  match I128.ofInt? mantissa with
  | some mantissa => return .dec mantissa scale
  | none => throw (.custom "i128")

/-- Read a literal. -/
def deserializeLiteral : Reader Literal := do
  match ← word 4 with
  | 0 => deserializeDec
  | 1 => .str <$> string
  | 2 => .date <$> parsed serde.dateFromText
  | 3 => .dur <$> deserializeDuration
  | 4 => .bool <$> bool
  | 5 => .uri <$> string
  | index => throw (.invalidVariant index)

/-- Read a head. -/
def deserializeHead : Reader PredicateHead := do
  match ← word 4 with
  | 0 => (fun index => .id ⟨index⟩) <$> u32
  | 1 => .name <$> string
  | index => throw (.invalidVariant index)

/-- A named argument, given how its term is read. -/
def deserializeEntry (term : Reader Term) : Reader (String × Term) := do
  let key ← string
  let value ← term
  return (key, value)

/-- A predicate, given how its terms are read. -/
def deserializePredicate (term : Reader Term) : Reader Predicate := do
  let head ← deserializeHead
  let args ← seq term
  let named ← seq (deserializeEntry term)
  return ⟨head, args, named⟩

/-- A term. The fuel bounds the nesting. -/
def deserializeTerm : Nat → Reader Term
  | 0 => throw .fuel
  | fuel + 1 => do
    match ← word 4 with
    | 0 => .var <$> string
    | 1 => (fun text => .ent ⟨text⟩) <$> string
    | 2 => .lit <$> deserializeLiteral serde
    | 3 => .compound <$> deserializePredicate (deserializeTerm fuel)
    | 4 => .list <$> seq (deserializeTerm fuel)
    | index => throw (.invalidVariant index)

/-- Read a status. -/
def deserializeStatus : Reader NodeStatus := do
  match ← word 4 with
  | 0 => return .active
  | 1 => return .retracted
  | 2 => return .pending
  | index => throw (.invalidVariant index)

/-- Every declared field is read, in order. -/
def deserializeFields (fuel : Nat) : Reader (Node F) := do
  let id ← string
  let predicate ← deserializePredicate (deserializeTerm serde fuel)
  let validity ← deserializeValidity serde
  let provenance ← deserializeProvenance
  let confidence ← u32
  let authority ← u32
  let permissions ← u32
  let deps ← seq (NodeId.mk <$> string)
  let status ← deserializeStatus
  let note ← option string
  return {
    id := ⟨id⟩
    predicate, validity, provenance
    confidence := ⟨serde.fromBits confidence⟩
    authority := ⟨serde.fromBits authority⟩
    permissions := ⟨permissions⟩
    deps, status, note }

/-- Read a node. Bytes after it are ignored. A term takes more bytes than it nests, so the
number of bytes is fuel enough. -/
def deserialize (bytes : List UInt8) : Except ReadError (Node F) :=
  answer (deserializeFields serde bytes.length) bytes

/-! ### Every part reads back -/

theorem reads_span (span : Span) : Reads deserializeSpan (serializeSpan span) span :=
  (reads_u32 span.start).bind ((reads_u32 span.stop).bind (Reads.pure _))

theorem reads_modelRef {model : ModelRef} (small : (serializeModelRef model).length < 2 ^ 64) :
    Reads deserializeModelRef (serializeModelRef model) model := by
  simp only [serializeModelRef, List.flatten_cons, List.flatten_nil, List.length_append] at small
  exact (reads_string (by omega)).bind ((reads_string (by omega)).bind (Reads.pure _))

theorem reads_dateTime {t : DateTime} (small : (serializeDateTime serde t).length < 2 ^ 64) :
    Reads (deserializeDateTime serde) (serializeDateTime serde t) t :=
  reads_parsed (serde.datetimeFromText_datetimeText t) small

theorem reads_validity {validity : Validity}
    (small : (serializeValidity serde validity).length < 2 ^ 64) :
    Reads (deserializeValidity serde) (serializeValidity serde validity) validity := by
  cases validity with
  | forever => exact reads_variant 0 (by decide) (Reads.pure _)
  | window from_ until_ =>
    simp only [serializeValidity, List.flatten_cons, List.length_append] at small
    refine reads_variant 1 (by decide) ((reads_dateTime serde (by omega)).bind ?_)
    refine (reads_option fun t isTime => ?_).bind (Reads.pure _)
    rw [isTime, optionBytes, List.length_cons] at small
    exact reads_dateTime serde (by omega)

theorem reads_provenance {provenance : Provenance}
    (small : (serializeProvenance provenance).length < 2 ^ 64) :
    Reads deserializeProvenance (serializeProvenance provenance) provenance := by
  cases provenance <;>
    simp only [serializeProvenance, List.flatten_cons, List.length_append] at small
  case verbatim doc span =>
    refine reads_variant 0 (by decide) ((reads_string (by omega)).bind ?_)
    exact (reads_span span).bind (Reads.pure _)
  case summary doc span =>
    refine reads_variant 1 (by decide) ((reads_string (by omega)).bind ?_)
    exact (reads_span span).bind (Reads.pure _)
  case extracted doc span model =>
    refine reads_variant 2 (by decide) ((reads_string (by omega)).bind ?_)
    exact (reads_span span).bind ((reads_modelRef (by omega)).bind (Reads.pure _))
  case derived from_ rule =>
    refine reads_variant 3 (by decide) ((reads_string (by omega)).bind ?_)
    exact (reads_string (by omega)).bind (Reads.pure _)
  case asserted by_ =>
    exact reads_variant 4 (by decide) ((reads_string (by omega)).bind (Reads.pure _))

theorem reads_duration (d : Duration) :
    Reads deserializeDuration (serializeDuration d) d := by
  have nanosSmall : d.nanos.val < 256 ^ 4 := lt_trans d.nanos.isLt (by decide)
  refine (reads_u64 d.secs).bind ((reads_word nanosSmall).bind ?_)
  have noCarry : d.nanos.val / 1000000000 = 0 := Nat.div_eq_of_lt d.nanos.isLt
  have inSecond : d.nanos.val % 1000000000 = d.nanos.val := Nat.mod_eq_of_lt d.nanos.isLt
  have fits : ¬ 2 ^ 64 ≤ d.secs.toNat + d.nanos.val / 1000000000 := by
    have bound := d.secs.toNat_lt
    omega
  intro rest
  rw [if_neg fits]
  show EStateM.Result.ok _ _ = _
  simp only [noCarry, inSecond]
  simp

theorem reads_dec (mantissa : I128) (scale : UInt8) :
    Reads deserializeDec ([littleEndianSigned 16 mantissa.val, [scale]].flatten)
      (.dec mantissa scale) := by
  have range := mantissa.property
  refine (reads_signed (by decide) (by omega) (by omega)).bind ((reads_u8 scale).bind ?_)
  simp only [I128.ofInt?, range, and_self, dite_true]
  exact Reads.pure _

theorem reads_literal {literal : Literal}
    (small : (serializeLiteral serde literal).length < 2 ^ 64) :
    Reads (deserializeLiteral serde) (serializeLiteral serde literal) literal := by
  cases literal <;>
    simp only [serializeLiteral, List.flatten_cons, List.flatten_nil, List.append_nil,
      List.length_append] at small ⊢
  case dec mantissa scale => exact reads_variant 0 (by decide) (reads_dec mantissa scale)
  case str text => exact reads_variant 1 (by decide) ((reads_string (by omega)).map _)
  case date d =>
    have read := reads_parsed (serde.dateFromText_dateText d) (by omega)
    exact reads_variant 2 (by decide) (read.map _)
  case dur d => exact reads_variant 3 (by decide) ((reads_duration d).map _)
  case bool b => exact reads_variant 4 (by decide) ((reads_bool b).map _)
  case uri text => exact reads_variant 5 (by decide) ((reads_string (by omega)).map _)

theorem reads_head {head : PredicateHead} (small : (serializeHead head).length < 2 ^ 64) :
    Reads deserializeHead (serializeHead head) head := by
  cases head <;>
    simp only [serializeHead, List.flatten_cons, List.flatten_nil, List.append_nil,
      List.length_append] at small ⊢
  case id id => exact reads_variant 0 (by decide) ((reads_u32 id.index).map _)
  case name name => exact reads_variant 1 (by decide) ((reads_string (by omega)).map _)

theorem reads_status (status : NodeStatus) :
    Reads deserializeStatus (serializeStatus status) status := by
  cases status with
  | active => exact reads_variant 0 (by decide) (Reads.pure _)
  | retracted => exact reads_variant 1 (by decide) (Reads.pure _)
  | pending => exact reads_variant 2 (by decide) (Reads.pure _)

/-! ### Terms -/

theorem four_le_length_serializeTerm (term : Term) :
    4 ≤ (serializeTerm serde term).length := by
  cases term <;> simp only [serializeTerm, List.flatten_cons, List.length_append, variant,
    length_littleEndian] <;> omega

theorem serializeTerm_ne_nil (term : Term) : serializeTerm serde term ≠ [] := by
  intro empty
  have atLeast := four_le_length_serializeTerm serde term
  rw [empty] at atLeast
  exact absurd atLeast (by decide)

theorem serializeTerms_eq (terms : List Term) :
    serializeTerms serde terms = terms.flatMap (serializeTerm serde) := by
  induction terms with
  | nil => rfl
  | cons term rest inductionHypothesis =>
    rw [serializeTerms, inductionHypothesis, List.flatMap_cons]

theorem serializeNamed_eq (named : List (String × Term)) :
    serializeNamed serde named =
      named.flatMap fun entry => [stringBytes entry.1, serializeTerm serde entry.2].flatten := by
  induction named with
  | nil => rfl
  | cons entry rest inductionHypothesis =>
    rw [serializeNamed, inductionHypothesis, List.flatMap_cons]

theorem reads_items {term : Reader Term} {terms : List Term}
    (small : 8 + (serializeTerms serde terms).length < 2 ^ 64)
    (reads : ∀ item ∈ terms, Reads term (serializeTerm serde item) item) :
    Reads (seq term) (littleEndian 8 terms.length ++ serializeTerms serde terms) terms := by
  rw [serializeTerms_eq] at small ⊢
  refine reads_seq ?_ (fun item _ => serializeTerm_ne_nil serde item) reads
  rw [seqBytes, List.length_append, length_littleEndian]
  exact small

theorem reads_entries {term : Reader Term} {named : List (String × Term)}
    (small : 8 + (serializeNamed serde named).length < 2 ^ 64)
    (reads : ∀ entry ∈ named, Reads (deserializeEntry term)
      ([stringBytes entry.1, serializeTerm serde entry.2].flatten) entry) :
    Reads (seq (deserializeEntry term))
      (littleEndian 8 named.length ++ serializeNamed serde named) named := by
  rw [serializeNamed_eq] at small ⊢
  refine reads_seq ?_ (fun entry _ empty => ?_) reads
  · rw [seqBytes, List.length_append, length_littleEndian]
    exact small
  · rw [List.flatten_cons, List.append_eq_nil_iff, List.flatten_cons,
      List.append_eq_nil_iff] at empty
    exact serializeTerm_ne_nil serde entry.2 empty.2.1

mutual

/-- A term is read back with as much fuel as it has bytes. -/
theorem reads_term : ∀ (term : Term) (fuel : Nat), (serializeTerm serde term).length ≤ fuel →
    fuel < 2 ^ 64 → Reads (deserializeTerm serde fuel) (serializeTerm serde term) term
  | .var name => by
    intro fuel enough small
    simp only [serializeTerm, List.flatten_cons, List.flatten_nil, List.append_nil,
      List.length_append, variant, length_littleEndian] at enough ⊢
    obtain ⟨less, rfl⟩ := Nat.exists_eq_add_one_of_ne_zero (n := fuel) (by omega)
    exact reads_variant 0 (by decide) ((reads_string (by omega)).map _)
  | .ent entity => by
    intro fuel enough small
    simp only [serializeTerm, List.flatten_cons, List.flatten_nil, List.append_nil,
      List.length_append, variant, length_littleEndian] at enough ⊢
    obtain ⟨less, rfl⟩ := Nat.exists_eq_add_one_of_ne_zero (n := fuel) (by omega)
    exact reads_variant 1 (by decide) ((reads_string (by omega)).map fun text => Term.ent ⟨text⟩)
  | .lit literal => by
    intro fuel enough small
    simp only [serializeTerm, List.flatten_cons, List.flatten_nil, List.append_nil,
      List.length_append, variant, length_littleEndian] at enough ⊢
    obtain ⟨less, rfl⟩ := Nat.exists_eq_add_one_of_ne_zero (n := fuel) (by omega)
    exact reads_variant 2 (by decide) ((reads_literal serde (by omega)).map _)
  | .compound pred => by
    intro fuel enough small
    simp only [serializeTerm, List.flatten_cons, List.flatten_nil, List.append_nil,
      List.length_append, variant, length_littleEndian] at enough ⊢
    obtain ⟨less, rfl⟩ := Nat.exists_eq_add_one_of_ne_zero (n := fuel) (by omega)
    have inner := reads_predicate pred less (by omega) (by omega)
    exact reads_variant 3 (by decide) (inner.map _)
  | .list items => by
    intro fuel enough small
    simp only [serializeTerm, List.flatten_cons, List.flatten_nil, List.append_nil,
      List.length_append, variant, length_littleEndian] at enough ⊢
    obtain ⟨less, rfl⟩ := Nat.exists_eq_add_one_of_ne_zero (n := fuel) (by omega)
    have inner := reads_terms items less (by omega) (by omega)
    exact reads_variant 4 (by decide) ((reads_items serde (by omega) inner).map _)

theorem reads_predicate : ∀ (pred : Predicate) (fuel : Nat),
    (serializePredicate serde pred).length ≤ fuel → fuel < 2 ^ 64 →
    Reads (deserializePredicate (deserializeTerm serde fuel)) (serializePredicate serde pred) pred
  | ⟨head, args, named⟩ => by
    intro fuel enough small
    simp only [serializePredicate, List.flatten_cons, List.flatten_nil, List.append_nil,
      List.length_append, length_littleEndian] at enough ⊢
    have readsArgs := reads_items serde (by omega) (reads_terms args fuel (by omega) small)
    have readsNamed := reads_entries serde (by omega) (reads_named named fuel (by omega) small)
    rw [← List.append_assoc (littleEndian 8 args.length)]
    exact (reads_head (by omega)).bind (readsArgs.bind (readsNamed.bind_pure _))

theorem reads_terms : ∀ (terms : List Term) (fuel : Nat),
    (serializeTerms serde terms).length ≤ fuel → fuel < 2 ^ 64 →
    ∀ term ∈ terms, Reads (deserializeTerm serde fuel) (serializeTerm serde term) term
  | [] => by
    intro _ _ _ term member
    exact absurd member List.not_mem_nil
  | first :: rest => by
    intro fuel enough small term member
    rw [serializeTerms, List.length_append] at enough
    have readsFirst := reads_term first fuel (by omega) small
    have readsRest := reads_terms rest fuel (by omega) small
    rcases List.mem_cons.mp member with rfl | later
    · exact readsFirst
    · exact readsRest term later

theorem reads_named : ∀ (named : List (String × Term)) (fuel : Nat),
    (serializeNamed serde named).length ≤ fuel → fuel < 2 ^ 64 →
    ∀ entry ∈ named, Reads (deserializeEntry (deserializeTerm serde fuel))
      ([stringBytes entry.1, serializeTerm serde entry.2].flatten) entry
  | [] => by
    intro _ _ _ entry member
    exact absurd member List.not_mem_nil
  | (key, term) :: rest => by
    intro fuel enough small entry member
    simp only [serializeNamed, List.flatten_cons, List.flatten_nil, List.append_nil,
      List.length_append] at enough
    have readsFirst := reads_term term fuel (by omega) small
    have readsRest := reads_named rest fuel (by omega) small
    have readsKey : Reads string (stringBytes key) key := reads_string (by omega)
    rcases List.mem_cons.mp member with rfl | later
    · exact readsKey.bind (readsFirst.bind (Reads.pure _))
    · exact readsRest entry later

end

/-! ### Nodes -/

/-- The fields before the note read back, and the note is read next. -/
theorem deserializeFields_run (node : Node F) {fuel : Nat}
    (enough : (serializeFields serde node).length ≤ fuel) (small : fuel < 2 ^ 64)
    (rest : List UInt8) :
    deserializeFields serde fuel (serializeFields serde node ++ rest) =
      (option string >>= fun note => pure { node with note }) rest := by
  simp only [serializeFields, List.flatten_cons, List.flatten_nil, List.append_nil,
    List.length_append, List.append_assoc] at enough ⊢
  have readsDeps : Reads (seq (NodeId.mk <$> string))
      (seqBytes (fun id => stringBytes id.asStr) node.deps) node.deps := by
    refine reads_seq (by omega) (fun id _ empty => ?_) fun id member => ?_
    · have length := congrArg List.length empty
      rw [stringBytes, List.length_append, length_littleEndian] at length
      exact absurd length (by simp)
    · have item := length_item_le (fun id : NodeId => stringBytes id.asStr) member
      exact (reads_string (by omega)).map NodeId.mk
  rw [deserializeFields, (reads_string (by omega)).bind_run,
    (reads_predicate serde node.predicate fuel (by omega) small).bind_run,
    (reads_validity serde (by omega)).bind_run, (reads_provenance (by omega)).bind_run,
    (reads_u32 _).bind_run, (reads_u32 _).bind_run, (reads_u32 _).bind_run, readsDeps.bind_run,
    (reads_status _).bind_run]
  simp only [serde.fromBits_toBits]

/-- A node is read back exactly when it has a note: the reader of a node without one looks
for the tag of the note past the last byte. -/
theorem deserialize_serialize (node : Node F)
    (small : (serialize serde node).length < 2 ^ 64) :
    deserialize serde (serialize serde node) =
      match node.note with
      | some _ => .ok node
      | none => .error .endOfInput := by
  have enough : (serializeFields serde node).length ≤ (serialize serde node).length := by
    rw [serialize, List.length_append]
    omega
  rw [deserialize, answer]
  cases isNote : node.note with
  | none =>
    have ran := deserializeFields_run serde node enough small []
    have bytes : serialize serde node = serializeFields serde node ++ [] := by
      rw [serialize, isNote]
      rfl
    rw [← bytes, bind_error (option_nil string)] at ran
    rw [ran]
  | some text =>
    have bytes : serialize serde node =
        serializeFields serde node ++ optionBytes stringBytes (some text) := by
      rw [serialize, isNote]
      rfl
    have readsNote : Reads (option string) (optionBytes stringBytes (some text)) (some text) := by
      refine reads_option fun other same => reads_string ?_
      obtain rfl := Option.some.inj same
      rw [bytes, List.length_append, optionBytes, List.length_cons] at small
      omega
    have ran := deserializeFields_run serde node enough small
      (optionBytes stringBytes (some text))
    rw [← bytes, ← List.append_nil (optionBytes stringBytes (some text)), readsNote.bind_run]
      at ran
    rw [ran]
    have same : { node with note := some text } = node := by rw [← isNote]
    exact congrArg Except.ok same

end Bincode

/-- The codec of the persistent backend. -/
def NodeCodec.bincode {F : Type} (serde : Serde F) : NodeCodec F where
  serializeNode node := .ok (Bincode.serialize serde node)
  deserializeNode bytes := (Bincode.deserialize serde bytes).mapError serde.errorText

namespace RocksDBBackend

variable {F : Type} (serde : Serde F)

theorem deserializeNode_bincode (node : Node F)
    (small : (Bincode.serialize serde node).length < 2 ^ 64) :
    (NodeCodec.bincode serde).deserializeNode (Bincode.serialize serde node) =
      match node.note with
      | some _ => .ok node
      | none => .error (serde.errorText .endOfInput) := by
  have reads : ∀ bytes, (NodeCodec.bincode serde).deserializeNode bytes =
      (Bincode.deserialize serde bytes).mapError serde.errorText := fun _ => rfl
  rw [reads, Bincode.deserialize_serialize serde node small]
  cases node.note <;> rfl

/-- Whether an operation of a batch leaves the entry of a node alone. -/
def Avoids (id : NodeId) : WriteOp F → Prop
  | .putNode node => node.id ≠ id
  | .deleteNode other => other ≠ id
  | .putIndex cf _ _ => cf ≠ .nodes
  | .deleteIndex cf _ _ => cf ≠ .nodes

/-- Whether a backend gives a node back, by its identifier and among all nodes. -/
def ReadsBack (backend : RocksDBBackend F) (node : Node F) : Prop :=
  backend.getNode node.id = some node ∧ node ∈ backend.iterNodes

/-- What the persistent backend promises for a node: its bytes read back, and so does the
node once it was written, alone or in a batch that does not overwrite it. -/
structure Persists (node : Node F) : Prop where
  codec : (NodeCodec.bincode serde).deserializeNode (Bincode.serialize serde node) = .ok node
  putNode : ∀ backend : RocksDBBackend F, backend.codec = .bincode serde →
    ∃ after, backend.putNode node = .ok after ∧ after.ReadsBack node
  batchWrite : ∀ (backend : RocksDBBackend F) (before later : List (WriteOp F)),
    backend.codec = .bincode serde → (∀ op ∈ later, Avoids node.id op) →
    ∃ after, (before ++ .putNode node :: later).foldlM applyOp backend = .ok after ∧
      after.ReadsBack node

/-- Whether a backend holds the bytes of a node under its identifier. -/
structure HasEntry (node : Node F) (backend : RocksDBBackend F) : Prop where
  codec : backend.codec = .bincode serde
  entry : (backend.columns .nodes)[Utf8.ofString node.id.asStr]? =
    some (Bincode.serialize serde node)

variable {serde}

/-- Writing a node as bytes cannot fail. -/
theorem putNode_bincode {backend : RocksDBBackend F} (codec : backend.codec = .bincode serde)
    (node : Node F) : ∃ after, backend.putNode node = .ok after ∧ HasEntry serde node after := by
  refine ⟨backend.putCf .nodes (Utf8.ofString node.id.asStr) (Bincode.serialize serde node), ?_,
    codec, ?_⟩
  · rw [putNode, codec]
    rfl
  · rw [columns_putCf, if_pos rfl, Std.TreeMap.getElem?_insert_self]

theorem applyOp_bincode {backend : RocksDBBackend F} (codec : backend.codec = .bincode serde)
    (op : WriteOp F) :
    ∃ after, backend.applyOp op = .ok after ∧ after.codec = .bincode serde := by
  cases op with
  | putNode node =>
    obtain ⟨after, ran, entry⟩ := putNode_bincode codec node
    exact ⟨after, ran, entry.codec⟩
  | deleteNode id => exact ⟨_, rfl, codec⟩
  | putIndex cf key nodeId => exact ⟨_, rfl, codec⟩
  | deleteIndex cf key nodeId => exact ⟨_, rfl, codec⟩

/-- An operation on other entries leaves the entry of a node. -/
theorem HasEntry.applyOp {node : Node F} {backend : RocksDBBackend F}
    (entry : HasEntry serde node backend) {op : WriteOp F} (avoids : Avoids node.id op) :
    ∃ after, backend.applyOp op = .ok after ∧ HasEntry serde node after := by
  have different : ∀ {id : NodeId}, id ≠ node.id →
      compare (Utf8.ofString id.asStr) (Utf8.ofString node.id.asStr) ≠ .eq := by
    intro id other order
    have bytesSame := Std.compare_eq_iff_eq.mp order
    exact other (congrArg NodeId.mk (Utf8.ofString_injective bytesSame))
  cases op with
  | putNode other =>
    refine ⟨backend.putCf .nodes (Utf8.ofString other.id.asStr) (Bincode.serialize serde other),
      ?_, entry.codec, ?_⟩
    · rw [RocksDBBackend.applyOp, putNode, entry.codec]
      rfl
    · rw [columns_putCf, if_pos rfl, Std.TreeMap.getElem?_insert, if_neg (different avoids)]
      exact entry.entry
  | deleteNode id =>
    refine ⟨_, rfl, entry.codec, ?_⟩
    rw [columns_deleteCf, if_pos rfl, Std.TreeMap.getElem?_erase, if_neg (different avoids)]
    exact entry.entry
  | putIndex cf key nodeId =>
    refine ⟨_, rfl, entry.codec, ?_⟩
    rw [columns_putCf, if_neg (Ne.symm avoids)]
    exact entry.entry
  | deleteIndex cf key nodeId =>
    refine ⟨_, rfl, entry.codec, ?_⟩
    rw [columns_deleteCf, if_neg (Ne.symm avoids)]
    exact entry.entry

/-- A batch keeps what each of its operations keeps. -/
theorem foldlM_applyOp {keeps : RocksDBBackend F → Prop} {ops : List (WriteOp F)}
    (step : ∀ op ∈ ops, ∀ backend, keeps backend →
      ∃ after, applyOp backend op = .ok after ∧ keeps after) :
    ∀ backend, keeps backend → ∃ after, ops.foldlM applyOp backend = .ok after ∧ keeps after := by
  induction ops with
  | nil => exact fun backend kept => ⟨backend, rfl, kept⟩
  | cons op rest inductionHypothesis =>
    intro backend kept
    obtain ⟨between, ran, keptBetween⟩ := step op List.mem_cons_self backend kept
    obtain ⟨after, ranRest, keptAfter⟩ := inductionHypothesis
      (fun other member => step other (List.mem_cons_of_mem _ member)) between keptBetween
    refine ⟨after, ?_, keptAfter⟩
    rw [List.foldlM_cons, ran]
    exact ranRest

theorem HasEntry.readsBack {node : Node F} {backend : RocksDBBackend F}
    (entry : HasEntry serde node backend)
    (codec : (NodeCodec.bincode serde).deserializeNode (Bincode.serialize serde node) = .ok node) :
    backend.ReadsBack node := by
  constructor
  · rw [getNode, entry.entry, entry.codec]
    simp only [codec]
  · refine List.mem_filterMap.mpr ⟨(Utf8.ofString node.id.asStr, Bincode.serialize serde node),
      Std.TreeMap.mem_toList_iff_getElem?_eq_some.mpr entry.entry, ?_⟩
    rw [entry.codec]
    simp only [codec]

/-- A node whose bytes read back is given back however it was written. -/
theorem persists_of_codec {node : Node F}
    (codec : (NodeCodec.bincode serde).deserializeNode (Bincode.serialize serde node) = .ok node) :
    Persists serde node where
  codec := codec
  putNode := by
    intro backend isCodec
    obtain ⟨after, ran, entry⟩ := putNode_bincode isCodec node
    exact ⟨after, ran, entry.readsBack codec⟩
  batchWrite := by
    intro backend before later isCodec avoids
    have keepsCodec : ∀ op ∈ before, ∀ backend : RocksDBBackend F, backend.codec = .bincode serde →
        ∃ after, applyOp backend op = .ok after ∧ after.codec = .bincode serde :=
      fun op _ _ kept => applyOp_bincode kept op
    obtain ⟨first, ranBefore, codecFirst⟩ := foldlM_applyOp keepsCodec backend isCodec
    obtain ⟨second, ranNode, entry⟩ := putNode_bincode codecFirst node
    obtain ⟨after, ranLater, entryAfter⟩ := foldlM_applyOp
      (fun op member _ kept => HasEntry.applyOp kept (avoids op member)) second entry
    refine ⟨after, ?_, entryAfter.readsBack codec⟩
    rw [List.foldlM_append, ranBefore]
    show (applyOp first (.putNode node) >>= fun next => later.foldlM applyOp next) = _
    rw [applyOp, ranNode]
    exact ranLater

/-- The persistent backend gives a node back exactly when the node has a note. -/
theorem persists_iff {node : Node F} (small : (Bincode.serialize serde node).length < 2 ^ 64) :
    Persists serde node ↔ node.note.isSome = true := by
  have reads := deserializeNode_bincode serde node small
  cases isNote : node.note with
  | none =>
    rw [isNote] at reads
    refine ⟨fun persists => ?_, fun impossible => Bool.noConfusion impossible⟩
    cases reads.symm.trans persists.codec
  | some text =>
    rw [isNote] at reads
    exact ⟨fun _ => rfl, fun _ => persists_of_codec reads⟩

end RocksDBBackend

/-! ### Numbers as their bits -/

/-- Libraries that write a float as its bits, and a time as the numeral of a number. -/
def Serde.raw : Serde UInt32 where
  toBits := id
  fromBits := id
  fromBits_toBits _ := rfl
  dateText d := d.daysFromEpoch.repr
  dateFromText text :=
    match text.toInt?.bind NaiveDate.ofDays with
    | some d => .ok d
    | none => .error "date"
  dateFromText_dateText d := by
    rw [Int.toInt?_repr, Option.bind_some, NaiveDate.ofDays_daysFromEpoch]
  datetimeText t := (Nat.pair (Equiv.intEquivNat t.timestamp) t.subsecNanos).repr
  datetimeFromText text :=
    match text.toNat?.bind fun code =>
        DateTime.ofTimestamp (Equiv.intEquivNat.symm (Nat.unpair code).1) (Nat.unpair code).2 with
    | some t => .ok t
    | none => .error "datetime"
  datetimeFromText_datetimeText t := by
    rw [Nat.toNat?_repr, Option.bind_some, Nat.unpair_pair, Equiv.symm_apply_apply,
      DateTime.ofTimestamp_timestamp]
  errorText _ := "bincode"

/-- A fact with the confidence 0.6 and the authority 0.5. -/
def fact (id : String) (predicate : Predicate) (note : Option String) : Node UInt32 where
  id := ⟨id⟩
  predicate
  validity := .forever
  provenance := .default
  confidence := ⟨0x3F19999A⟩
  authority := ⟨0x3F000000⟩
  permissions := .publicTag
  deps := []
  status := .active
  note

namespace RocksDBBackend

/-- A fact with a note is given back. -/
theorem persists_iff_noted :
    Persists .raw (fact "n1" ⟨.name "p", [.ent ⟨"A"⟩], []⟩ (some "checked")) ↔
      (fact "n1" ⟨.name "p", [.ent ⟨"A"⟩], []⟩ (some "checked")).note.isSome = true :=
  persists_iff (by decide +kernel)

/-- A fact without a note is written and not found again. -/
theorem deserializeNode_unnoted :
    (NodeCodec.bincode .raw).deserializeNode
        (Bincode.serialize .raw (fact "n1" ⟨.name "p", [.ent ⟨"A"⟩], []⟩ none)) ≠
      .ok (fact "n1" ⟨.name "p", [.ent ⟨"A"⟩], []⟩ none) := by
  decide

end RocksDBBackend

end Factum
