/-
This file is about what the compact form of a node loses.

A variable, an entity and a literal are all written as strings without a mark of their kind,
and the bounds of a window as days. So two nodes have the same compact JSON exactly when
they differ in nothing but these: leaf terms of different kinds with one text, and times of
day. For heads the registry matters too, which tells names apart as long as no identifier is
given twice.
-/

import Factum.Compact
import Factum.Distinct
import Factum.Vocabulary

namespace Factum

/-! ### Fields that may be left out -/

section Fields

variable {D : Type}

/-- A field that may be left out is told from the fields after it, which have other keys. -/
theorem fieldUnless_append_inj {skipped skipped' : Bool} {key : String} {value value' : Json D}
    {rest rest' : List (String × Json D)} (others : key ∉ rest.map Prod.fst)
    (others' : key ∉ rest'.map Prod.fst)
    (same : fieldUnless skipped key value ++ rest = fieldUnless skipped' key value' ++ rest') :
    skipped = skipped' ∧ (skipped = false → value = value') ∧ rest = rest' := by
  cases skipped <;> cases skipped'
  · obtain ⟨isField, isRest⟩ := List.cons.inj same
    exact ⟨rfl, fun _ => (Prod.mk.inj isField).2, isRest⟩
  · have isRest : (key, value) :: rest = rest' := same
    exact absurd (isRest ▸ List.mem_cons_self) others'
  · have isRest : rest = (key, value') :: rest' := same
    exact absurd (isRest ▸ List.mem_cons_self) others
  · exact ⟨rfl, nofun, same⟩

/-- An array that is left out when it is empty is told from the fields after it. -/
theorem arrayField_append_inj {items items' : List (Json D)} {key : String}
    {rest rest' : List (String × Json D)} (others : key ∉ rest.map Prod.fst)
    (others' : key ∉ rest'.map Prod.fst)
    (same : fieldUnless items.isEmpty key (.arr items) ++ rest =
      fieldUnless items'.isEmpty key (.arr items') ++ rest') : items = items' ∧ rest = rest' := by
  obtain ⟨isEmpty, values, isRest⟩ := fieldUnless_append_inj others others' same
  refine ⟨?_, isRest⟩
  cases items with
  | nil => exact (List.isEmpty_iff.mp isEmpty.symm).symm
  | cons item more => exact Json.arr.inj (values rfl)

theorem isEmpty_namedToJson (named : List (String × CompactTerm)) :
    (CompactTerm.namedToJson named : List (Json D)).isEmpty = named.isEmpty := by
  cases named <;> rfl

/-- The JSON of a predicate, with the left-out field told by its own value. -/
theorem CompactPredicate.toJson_eq (h : CompactHead) (a : List CompactTerm)
    (n : List (String × CompactTerm)) : (CompactPredicate.mk h a n).toJson (D := D) =
      .obj (("h", h.toJson) :: ("a", .arr (CompactTerm.allToJson a)) ::
        (fieldUnless (CompactTerm.namedToJson n : List (Json D)).isEmpty "n"
          (.arr (CompactTerm.namedToJson n)) ++ [])) := by
  rw [isEmpty_namedToJson, List.append_nil]
  rfl

/-- Heads that are names are told apart. -/
theorem head_eq_of_toJson {head head' : PredicateHead} (isName : head.IsName)
    (isName' : head'.IsName)
    (same : (CompactHead.ofHead head).toJson (D := D) = (CompactHead.ofHead head').toJson) :
    head = head' := by
  cases head with
  | id morpheme => exact absurd isName not_false
  | name text =>
    cases head' with
    | id morpheme => exact absurd isName' not_false
    | name text' => exact congrArg PredicateHead.name (Json.str.inj same)

end Fields

/-! ### Texts of leaf terms -/

section Terms

variable {F D : Type} {host : Host F}

/-- The text of a leaf term. -/
def Term.leafText (host : Host F) : Term → Option String
  | .var name => some name
  | .ent entity => some entity.asStr
  | .lit literal => some (String.ofList (literal.toCanonicalString host))
  | .list _ => none
  | .compound _ => none

/-- The compact JSON of a term. -/
def Term.compactJson (D : Type) (host : Host F) (term : Term) : Json D :=
  (CompactTerm.fromTerm host term).toJson

/-- The compact JSON of a leaf term is its text, and only of a leaf term it is a text. -/
theorem Term.compactJson_eq_str (term : Term) (text : String) :
    term.compactJson D host = .str text ↔ term.leafText host = some text := by
  cases term with
  | compound pred =>
    obtain ⟨head, args, named⟩ := pred
    exact iff_of_false nofun nofun
  | list items => exact iff_of_false nofun nofun
  | _ =>
    unfold Term.compactJson Term.leafText
    simp [CompactTerm.fromTerm, CompactTerm.toJson]

/-- The body of a quoted string, which only escapes what it must. -/
theorem stringBody_literal (text : List Char) :
    Lexer.StringBody (text.flatMap fun c =>
      if c = '\\' then ['\\', '\\'] else if c = '"' then ['\\', '"'] else [c]) text := by
  induction text with
  | nil => exact .nil
  | cons c rest inductionHypothesis =>
    rw [List.flatMap_cons]
    split_ifs with isBackslash isQuote
    · rw [isBackslash]
      exact .escaped (c := '\\') (by decide) inductionHypothesis
    · rw [isQuote]
      exact .escaped (c := '"') (by decide) inductionHypothesis
    · exact .plain isQuote isBackslash inductionHypothesis

/-- Literals of one kind with one text are the same. -/
theorem literal_eq_of_text (dates : host.TellsDates) {literal literal' : Literal}
    (lexical : Asks.lexical.literal literal) (lexical' : Asks.lexical.literal literal')
    (kinds : (Term.lit literal).opening = (Term.lit literal').opening)
    (same : literal.toCanonicalString host = literal'.toCanonicalString host) :
    literal = literal' := by
  cases literal <;> cases literal' <;> cases kinds
  case dec.dec mantissa scale mantissa' scale' =>
    exact decToString_injective lexical lexical' (String.toList_injective same)
  case str.str text text' =>
    have bodies : _ ++ '"' :: [] = _ ++ '"' :: [] := List.tail_eq_of_cons_eq same
    have texts := (stringBody_cancel (stringBody_literal _) (stringBody_literal _) bodies).1
    exact congrArg Literal.str (String.toList_injective texts)
  case date.date d d' =>
    exact congrArg Literal.date (dates.date_injective (String.toList_injective same))
  case dur.dur d d' =>
    exact congrArg Literal.dur
      (Duration.asNanos_injective (decimal_injective (List.append_cancel_right same)))
  case bool.bool b b' => cases b <;> cases b' <;> first | rfl | cases same
  case uri.uri text text' =>
    have texts := List.append_cancel_right (List.tail_eq_of_cons_eq same)
    exact congrArg Literal.uri (String.toList_injective texts)

variable (host) in
mutual

/-- Terms that differ at most in the kinds of leaf terms with one text. -/
inductive Blurs : Term → Term → Prop
  | same (term : Term) : Blurs term term
  | leaf {a b : Term} {text : String} (kinds : a.opening ≠ b.opening)
      (isA : a.leafText host = some text) (isB : b.leafText host = some text) : Blurs a b
  | list {items items' : List Term} (each : BlursAll items items') :
      Blurs (.list items) (.list items')
  | compound {pred pred' : Predicate} (inside : PredicateBlurs pred pred') :
      Blurs (.compound pred) (.compound pred')

/-- Predicates that differ at most in the kinds of leaf terms with one text. -/
inductive PredicateBlurs : Predicate → Predicate → Prop
  | mk (head : PredicateHead) {args args' : List Term} {named named' : List (String × Term)}
      (each : BlursAll args args') (eachNamed : BlursNamed named named') :
      PredicateBlurs ⟨head, args, named⟩ ⟨head, args', named'⟩

/-- Lists of terms that differ at most so. -/
inductive BlursAll : List Term → List Term → Prop
  | nil : BlursAll [] []
  | cons {a b : Term} {rest rest' : List Term} (here : Blurs a b) (each : BlursAll rest rest') :
      BlursAll (a :: rest) (b :: rest')

/-- Named arguments that differ at most so. -/
inductive BlursNamed : List (String × Term) → List (String × Term) → Prop
  | nil : BlursNamed [] []
  | cons (key : String) {a b : Term} {rest rest' : List (String × Term)} (here : Blurs a b)
      (each : BlursNamed rest rest') : BlursNamed ((key, a) :: rest) ((key, b) :: rest')

end

/-- Leaf terms with one text are the same or of different kinds. -/
theorem blurs_of_leafText (dates : host.TellsDates) {a b : Term} (meets : a.Meets .parsed)
    (meets' : b.Meets .parsed) {text : String} (isA : a.leafText host = some text)
    (isB : b.leafText host = some text) : Blurs host a b := by
  by_cases kinds : a.opening = b.opening
  · have isSame : a = b := by
      have texts := isA.trans isB.symm
      cases a with
      | var name =>
        cases b with
        | var name' => exact congrArg Term.var (Option.some.inj texts)
        | lit literal => cases literal <;> cases kinds
        | _ => cases kinds
      | ent entity =>
        cases b with
        | ent entity' => exact congrArg (Term.ent ∘ EntityId.mk) (Option.some.inj texts)
        | lit literal => cases literal <;> cases kinds
        | _ => cases kinds
      | lit literal =>
        cases b with
        | lit literal' =>
          have same := String.ofList_injective (Option.some.inj texts)
          exact congrArg Term.lit (literal_eq_of_text dates meets meets' kinds same)
        | _ => cases literal <;> cases kinds
      | list items => cases isA
      | compound pred => cases isA
    rw [isSame]
    exact .same b
  · exact .leaf kinds isA isB

mutual

theorem blurs_of_compactJson (dates : host.TellsDates) : ∀ (a b : Term), a.Meets .parsed →
    b.Meets .parsed → a.compactJson D host = b.compactJson D host → Blurs host a b
  | .list items, b, meets, meets', same => by
    cases b with
    | list items' =>
      exact .list (blursAll_of_compactJson dates items items' meets meets' (Json.arr.inj same))
    | compound pred =>
      obtain ⟨head, args, named⟩ := pred
      cases same
    | _ => cases same
  | .compound pred, b, meets, meets', same => by
    cases b with
    | compound pred' =>
      exact .compound (predicateBlurs_of_compactJson dates pred pred' meets meets' same)
    | _ =>
      obtain ⟨head, args, named⟩ := pred
      cases same
  | .var name, b, meets, meets', same =>
    blurs_of_leafText dates meets meets' rfl ((b.compactJson_eq_str name).mp same.symm)
  | .ent entity, b, meets, meets', same =>
    blurs_of_leafText dates meets meets' rfl ((b.compactJson_eq_str entity.asStr).mp same.symm)
  | .lit literal, b, meets, meets', same =>
    blurs_of_leafText dates meets meets' rfl ((b.compactJson_eq_str _).mp same.symm)

theorem predicateBlurs_of_compactJson (dates : host.TellsDates) : ∀ (pred pred' : Predicate),
    pred.Meets .parsed → pred'.Meets .parsed →
      (CompactPredicate.fromPredicate host pred).toJson (D := D) =
        (CompactPredicate.fromPredicate host pred').toJson →
      PredicateBlurs host pred pred'
  | ⟨head, args, named⟩, ⟨head', args', named'⟩, ⟨isHead, meets, meetsNamed⟩,
      ⟨isHead', meets', meetsNamed'⟩, same => by
    rw [CompactPredicate.fromPredicate, CompactPredicate.fromPredicate,
      CompactPredicate.toJson_eq, CompactPredicate.toJson_eq] at same
    obtain ⟨isName, later⟩ := List.cons.inj (Json.obj.inj same)
    obtain ⟨isArgs, isNamed⟩ := List.cons.inj later
    cases head_eq_of_toJson isHead isHead' (Prod.mk.inj isName).2
    exact .mk head
      (blursAll_of_compactJson dates args args' meets meets' (Json.arr.inj (Prod.mk.inj isArgs).2))
      (blursNamed_of_compactJson dates named named' meetsNamed meetsNamed'
        (arrayField_append_inj List.not_mem_nil List.not_mem_nil isNamed).1)

theorem blursAll_of_compactJson (dates : host.TellsDates) : ∀ (terms terms' : List Term),
    Term.AllMeet .parsed terms → Term.AllMeet .parsed terms' →
      CompactTerm.allToJson (CompactTerm.fromTerms host terms) (D := D) =
        CompactTerm.allToJson (CompactTerm.fromTerms host terms') →
      BlursAll host terms terms'
  | [], [], _, _, _ => .nil
  | [], _ :: _, _, _, same => nomatch same
  | _ :: _, [], _, _, same => nomatch same
  | term :: rest, term' :: rest', ⟨meets, others⟩, ⟨meets', others'⟩, same =>
    have heads := List.cons.inj same
    .cons (blurs_of_compactJson dates term term' meets meets' heads.1)
      (blursAll_of_compactJson dates rest rest' others others' heads.2)

theorem blursNamed_of_compactJson (dates : host.TellsDates) :
    ∀ (named named' : List (String × Term)), Term.AllMeetNamed .parsed named →
      Term.AllMeetNamed .parsed named' →
      CompactTerm.namedToJson (CompactTerm.fromNamed host named) (D := D) =
        CompactTerm.namedToJson (CompactTerm.fromNamed host named') →
      BlursNamed host named named'
  | [], [], _, _, _ => .nil
  | [], _ :: _, _, _, same => nomatch same
  | _ :: _, [], _, _, same => nomatch same
  | (key, term) :: rest, (key', term') :: rest', ⟨_, meets, others⟩, ⟨_, meets', others'⟩,
      same => by
    obtain ⟨pair, later⟩ := List.cons.inj same
    obtain ⟨isKey, isTerm⟩ := List.cons.inj (Json.arr.inj pair)
    cases isKey
    exact .cons key (blurs_of_compactJson dates term term' meets meets' (List.cons.inj isTerm).1)
      (blursNamed_of_compactJson dates rest rest' others others' later)

end

mutual

theorem Blurs.compactJson_eq {a b : Term} : Blurs host a b →
    a.compactJson D host = b.compactJson D host
  | .same _ => rfl
  | .leaf _ isA isB =>
    ((Term.compactJson_eq_str _ _).mpr isA).trans ((Term.compactJson_eq_str _ _).mpr isB).symm
  | .list each => congrArg Json.arr each.compactJson_eq
  | .compound inside => inside.compactJson_eq

theorem PredicateBlurs.compactJson_eq {pred pred' : Predicate} : PredicateBlurs host pred pred' →
    (CompactPredicate.fromPredicate host pred).toJson (D := D) =
      (CompactPredicate.fromPredicate host pred').toJson
  | .mk head each eachNamed => by
    rw [CompactPredicate.fromPredicate, CompactPredicate.fromPredicate,
      CompactPredicate.toJson_eq, CompactPredicate.toJson_eq, each.compactJson_eq,
      eachNamed.compactJson_eq]

theorem BlursAll.compactJson_eq {terms terms' : List Term} : BlursAll host terms terms' →
    CompactTerm.allToJson (CompactTerm.fromTerms host terms) (D := D) =
      CompactTerm.allToJson (CompactTerm.fromTerms host terms')
  | .nil => rfl
  | .cons here each => congrArg₂ List.cons here.compactJson_eq each.compactJson_eq

theorem BlursNamed.compactJson_eq {named named' : List (String × Term)} :
    BlursNamed host named named' →
      CompactTerm.namedToJson (CompactTerm.fromNamed host named) (D := D) =
        CompactTerm.namedToJson (CompactTerm.fromNamed host named')
  | .nil => rfl
  | .cons key here each =>
    congrArg₂ List.cons (congrArg (fun value => Json.arr [.str key, value]) here.compactJson_eq)
      each.compactJson_eq

end

end Terms

/-! ### Nodes -/

/-- Validities with bounds on the same days. -/
inductive Validity.SameDays : Validity → Validity → Prop
  | forever : SameDays .forever .forever
  | window {from_ from_' : DateTime} {until_ until_' : Option DateTime}
      (starts : from_.date = from_'.date)
      (ends : until_.map DateTime.date = until_'.map DateTime.date) :
      SameDays (.window from_ until_) (.window from_' until_')

/-- Heads that are the same, or names to which the registry gives one identifier. -/
inductive HeadsBlur (registry : MorphemeRegistry) : PredicateHead → PredicateHead → Prop
  | same (head : PredicateHead) : HeadsBlur registry head head
  | merged {name name' : String} {id : MorphemeId} (isId : registry.resolve name = some id)
      (isId' : registry.resolve name' = some id) : HeadsBlur registry (.name name) (.name name')

section Nodes

variable {F : Type} {host : Host F}

theorem resolved_of_some {registry : MorphemeRegistry} {name : String} {id : MorphemeId}
    (isId : registry.resolve name = some id) :
    CompactHead.resolved registry (.name name) = .id id.index := by
  unfold CompactHead.resolved
  simp only [isId]

theorem resolved_of_none {registry : MorphemeRegistry} {name : String}
    (unknown : registry.resolve name = none) :
    CompactHead.resolved registry (.name name) = .name name := by
  unfold CompactHead.resolved
  simp only [unknown]

theorem headsBlur_iff {registry : MorphemeRegistry} {head head' : PredicateHead}
    (isName : head.IsName) (isName' : head'.IsName) :
    (CompactHead.resolved registry head).toJson (D := F) =
        (CompactHead.resolved registry head').toJson ↔ HeadsBlur registry head head' := by
  cases head with
  | id morpheme => exact absurd isName not_false
  | name text =>
    cases head' with
    | id morpheme => exact absurd isName' not_false
    | name text' =>
      constructor
      · intro same
        cases isId : registry.resolve text with
        | none =>
          rw [resolved_of_none isId] at same
          cases isId' : registry.resolve text' with
          | none =>
            rw [resolved_of_none isId'] at same
            rw [Json.str.inj same]
            exact .same _
          | some id' =>
            rw [resolved_of_some isId'] at same
            cases same
        | some id =>
          rw [resolved_of_some isId] at same
          cases isId' : registry.resolve text' with
          | none =>
            rw [resolved_of_none isId'] at same
            cases same
          | some id' =>
            rw [resolved_of_some isId'] at same
            have sameIndex := UInt32.toNat_inj.mp (Int.ofNat.inj (Json.int.inj same))
            exact .merged isId (isId'.trans (congrArg (some ∘ MorphemeId.mk) sameIndex.symm))
      · rintro (_ | ⟨isId, isId'⟩)
        · rfl
        · rw [resolved_of_some isId, resolved_of_some isId']

theorem sameDays_iff (dates : host.TellsDates) (validity validity' : Validity) :
    (CompactValidity.ofValidity host validity).toJson (D := F) =
        (CompactValidity.ofValidity host validity').toJson ↔ validity.SameDays validity' := by
  have day : ∀ t t' : DateTime,
      host.dateFormat t.date = host.dateFormat t'.date ↔ t.date = t'.date :=
    fun t t' => dates.date_injective.eq_iff
  cases validity with
  | forever =>
    cases validity' with
    | forever => exact iff_of_true rfl .forever
    | window => exact iff_of_false nofun nofun
  | window from_ until_ =>
    cases validity' with
    | forever => exact iff_of_false nofun nofun
    | window from_' until_' =>
      have days : Validity.SameDays (.window from_ until_) (.window from_' until_') ↔
          from_.date = from_'.date ∧ until_.map DateTime.date = until_'.map DateTime.date :=
        ⟨fun | .window starts ends => ⟨starts, ends⟩, fun both => .window both.1 both.2⟩
      rw [days]
      cases until_ <;> cases until_' <;>
        simp [CompactValidity.ofValidity, CompactValidity.toJson, day]

theorem ofProvenance_toJson_eq_iff (provenance provenance' : Provenance) :
    (CompactProvenance.ofProvenance provenance).toJson (D := F) =
      (CompactProvenance.ofProvenance provenance').toJson ↔ provenance = provenance' := by
  have bounds : ∀ n n' : UInt32, (n.toNat : Int) = n'.toNat ↔ n = n' :=
    fun _ _ => Int.ofNat_inj.trans UInt32.toNat_inj
  rcases provenance with ⟨⟨doc⟩, ⟨start, stop⟩⟩ | ⟨⟨doc⟩, ⟨start, stop⟩⟩ |
      ⟨⟨doc⟩, ⟨start, stop⟩, ⟨name, version⟩⟩ | ⟨⟨from_⟩, ⟨rule⟩⟩ | ⟨⟨by_⟩⟩ <;>
    rcases provenance' with ⟨⟨doc'⟩, ⟨start', stop'⟩⟩ | ⟨⟨doc'⟩, ⟨start', stop'⟩⟩ |
      ⟨⟨doc'⟩, ⟨start', stop'⟩, ⟨name', version'⟩⟩ | ⟨⟨from_'⟩, ⟨rule'⟩⟩ | ⟨⟨by_'⟩⟩ <;>
    simp [CompactProvenance.ofProvenance, CompactProvenance.toJson, spanToJson, bounds]

/-- Nodes that differ at most in the kinds of leaf terms with one text, in the times of day of
their windows, and in heads with one identifier. -/
structure Blurred (host : Host F) (registry : MorphemeRegistry) (a b : Node F) : Prop where
  id : a.id = b.id
  head : HeadsBlur registry a.predicate.head b.predicate.head
  args : BlursAll host a.predicate.args b.predicate.args
  named : BlursNamed host a.predicate.named b.predicate.named
  validity : a.validity.SameDays b.validity
  provenance : a.provenance = b.provenance
  confidence : a.confidence = b.confidence
  authority : a.authority = b.authority
  permissions : a.permissions = b.permissions
  deps : a.deps = b.deps
  note : a.note = b.note

/-- The JSON of a node, with the left-out fields told by their own values. -/
theorem CompactNode.toJson_eq (node : CompactNode F) : node.toJson =
    .obj (("0", .str node.id) :: ("1", node.head.toJson) ::
      ("2", .arr (CompactTerm.allToJson node.args)) ::
      (fieldUnless (CompactTerm.namedToJson node.named : List (Json F)).isEmpty "3"
          (.arr (CompactTerm.namedToJson node.named)) ++
        (("4", node.valid.toJson) :: ("5", node.src.toJson) :: ("6", .float node.conf) ::
          ("7", .float node.auth) :: ("8", .int node.perm.toNat) ::
          (fieldUnless (node.deps.map Json.str : List (Json F)).isEmpty "9"
              (.arr (node.deps.map .str)) ++
            (fieldUnless node.note.isNone "10"
              ((node.note.map Json.str).getD .null) ++ []))))) := by
  rw [isEmpty_namedToJson, List.isEmpty_map]
  simp [CompactNode.toJson]

theorem key_not_mem_fieldUnless {D : Type} {skipped : Bool} {key other : String} {value : Json D}
    (differ : other ≠ key) : other ∉ (fieldUnless skipped key value).map Prod.fst := by
  cases skipped <;> simp [fieldUnless, differ]

/-- A list of identifiers is told by its texts. -/
theorem texts_injective {ids ids' : List NodeId}
    (same : (ids.map (·.asStr)).map (Json.str (D := F)) = (ids'.map (·.asStr)).map .str) :
    ids = ids' := by
  have strs := List.map_injective_iff.mpr (fun _ _ => Json.str.inj) same
  exact List.map_injective_iff.mpr (fun _ _ => congrArg NodeId.mk) strs

theorem note_eq_of_toJson {note note' : Option String} (isNone : note.isNone = note'.isNone)
    (isNote : note.isNone = false →
      (note.map Json.str).getD .null = (note'.map (Json.str (D := F))).getD .null) :
    note = note' := by
  cases note with
  | none => exact (Option.isNone_iff_eq_none.mp isNone.symm).symm
  | some text =>
    cases note' with
    | none => cases isNone
    | some text' => exact congrArg some (Json.str.inj (isNote rfl))

theorem Predicate.Meets.parts {asks : Asks} {pred : Predicate} (meets : pred.Meets asks) :
    asks.head pred.head ∧ Term.AllMeet asks pred.args ∧ Term.AllMeetNamed asks pred.named := by
  cases pred
  exact meets

/-- Two nodes have the same compact JSON exactly when they are blurred. -/
theorem compactJson_eq_iff (dates : host.TellsDates) (registry : MorphemeRegistry) {a b : Node F}
    (meets : a.predicate.Meets .parsed) (meets' : b.predicate.Meets .parsed) :
    (CompactNode.fromNode host a registry).toJson = (CompactNode.fromNode host b registry).toJson ↔
      Blurred host registry a b := by
  obtain ⟨isName, meetsArgs, meetsNamed⟩ := meets.parts
  obtain ⟨isName', meetsArgs', meetsNamed'⟩ := meets'.parts
  rw [CompactNode.toJson_eq, CompactNode.toJson_eq]
  constructor
  · intro same
    simp only [Json.obj.injEq, List.cons.injEq, Prod.mk.injEq, true_and, Json.str.injEq,
      Json.arr.injEq] at same
    obtain ⟨isId, isHead, isArgs, later⟩ := same
    obtain ⟨isNamed, later⟩ := arrayField_append_inj
      (by simp [key_not_mem_fieldUnless]) (by simp [key_not_mem_fieldUnless]) later
    simp only [List.cons.injEq, Prod.mk.injEq, true_and, Json.float.injEq, Json.int.injEq] at later
    obtain ⟨isValid, isSrc, isConf, isAuth, isPerm, later⟩ := later
    obtain ⟨isDeps, later⟩ := arrayField_append_inj
      (by simp [key_not_mem_fieldUnless]) (by simp [key_not_mem_fieldUnless]) later
    obtain ⟨isNone, isNote, _⟩ := fieldUnless_append_inj List.not_mem_nil List.not_mem_nil later
    exact {
      id := congrArg NodeId.mk isId
      head := (headsBlur_iff isName isName').mp isHead
      args := blursAll_of_compactJson dates _ _ meetsArgs meetsArgs' isArgs
      named := blursNamed_of_compactJson dates _ _ meetsNamed meetsNamed' isNamed
      validity := (sameDays_iff dates _ _).mp isValid
      provenance := (ofProvenance_toJson_eq_iff _ _).mp isSrc
      confidence := congrArg Confidence.mk isConf
      authority := congrArg Authority.mk isAuth
      permissions :=
        congrArg PermissionTag.mk (UInt32.toNat_inj.mp (Int.ofNat_inj.mp isPerm))
      deps := texts_injective isDeps
      note := note_eq_of_toJson isNone isNote }
  · intro blurred
    have isHead := (headsBlur_iff (F := F) isName isName').mpr blurred.head
    have isArgs := blurred.args.compactJson_eq (D := F)
    have isNamed := blurred.named.compactJson_eq (D := F)
    have isValid := (sameDays_iff (F := F) dates _ _).mpr blurred.validity
    simp only [CompactNode.fromNode]
    rw [isHead, isArgs, isNamed, isValid, blurred.id, blurred.provenance, blurred.confidence,
      blurred.authority, blurred.permissions, blurred.deps, blurred.note]

/-! ### What the compact form keeps -/

/-- What the compact form has to keep of a node. -/
structure SameFact (a b : Node F) : Prop where
  id : a.id = b.id
  predicate : a.predicate = b.predicate
  validity : a.validity = b.validity
  provenance : a.provenance = b.provenance
  confidence : a.confidence = b.confidence
  authority : a.authority = b.authority
  permissions : a.permissions = b.permissions
  deps : a.deps = b.deps

/-- Two nodes are the same fact if their compact JSON is the same. -/
def KeptApart (host : Host F) (registry : MorphemeRegistry) (a b : Node F) : Prop :=
  (CompactNode.fromNode host a registry).toJson = (CompactNode.fromNode host b registry).toJson →
    SameFact a b

/-- Two nodes are blurred and are not the same fact. -/
structure Confused (host : Host F) (registry : MorphemeRegistry) (a b : Node F) : Prop extends
    Blurred host registry a b where
  differ : a.predicate ≠ b.predicate ∨ a.validity ≠ b.validity

/-- A node that the parser returns for some text. -/
def Parser.ProducesNode [F32 F] (host : Host F) (node : Node F) : Prop :=
  ∃ src nodes, parse host src = .ok nodes ∧ node ∈ nodes

/-- The compact form keeps two parsed nodes apart exactly when they are not confused. -/
theorem compact_keeps_apart_iff [F32 F] (dates : host.TellsDates) (registry : MorphemeRegistry)
    {a b : Node F} (produced : Parser.ProducesNode host a)
    (produced' : Parser.ProducesNode host b) :
    KeptApart host registry a b ↔ ¬ Confused host registry a b := by
  obtain ⟨src, nodes, parsed, isA⟩ := produced
  obtain ⟨src', nodes', parsed', isB⟩ := produced'
  have meets := (Parser.readsAs_of_parse host parsed a isA).1.1
  have meets' := (Parser.readsAs_of_parse host parsed' b isB).1.1
  have isBlurred := compactJson_eq_iff dates registry meets meets'
  constructor
  · intro kept confused
    have same := kept (isBlurred.mpr confused.toBlurred)
    exact confused.differ.elim (fun other => other same.predicate) fun other => other same.validity
  · intro apart same
    have blurred := isBlurred.mp same
    by_contra differ
    refine apart ⟨blurred, ?_⟩
    by_contra agree
    obtain ⟨isPredicate, isValidity⟩ := not_or.mp agree
    exact differ ⟨blurred.id, not_not.mp isPredicate, not_not.mp isValidity, blurred.provenance,
      blurred.confidence, blurred.authority, blurred.permissions, blurred.deps⟩

end Nodes

namespace Tenths

/-- A note of something under an identifier. -/
def noted (id : String) (about : Term) : Node Tenths := Node.new id ⟨.name "noted", [about], []⟩

theorem noted_produced_entity : Parser.ProducesNode host (noted "n" (.ent ⟨"a"⟩)) :=
  ⟨"(node n :pred (noted @a))", [noted "n" (.ent ⟨"a"⟩)], by decide +kernel, List.mem_cons_self⟩

/-- A variable and an entity with one name are written alike. -/
theorem compact_merges_variable :
    ∃ (registry : MorphemeRegistry) (a b : Node Tenths), Parser.ProducesNode host a ∧
      Parser.ProducesNode host b ∧ ¬ KeptApart host registry a b := by
  refine ⟨.new, noted "n" (.ent ⟨"a"⟩), noted "n" (.var "a"), noted_produced_entity,
    ⟨"(node n :pred (noted ?a))", [noted "n" (.var "a")], by decide +kernel,
      List.mem_cons_self⟩, fun kept => ?_⟩
  exact absurd (kept rfl).predicate (by decide)

/-- Notes under two identifiers are kept apart. -/
theorem compact_keeps_apart_iff_noted :
    KeptApart host .new (noted "n" (.ent ⟨"a"⟩)) (noted "m" (.ent ⟨"a"⟩)) :=
  (compact_keeps_apart_iff host_lawful.tellsDates .new noted_produced_entity
    ⟨"(node m :pred (noted @a))", [noted "m" (.ent ⟨"a"⟩)], by decide +kernel,
      List.mem_cons_self⟩).mpr fun confused => absurd confused.id (by decide)

end Tenths

end Factum
