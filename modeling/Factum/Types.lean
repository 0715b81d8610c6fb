/-
This file embeds the core data types: identifiers, validity, provenance, scores,
literals, terms, predicates and the node itself, with the constructors and the
checks the source gives them.

A term nests predicates and lists without bound and a predicate nests terms, so
the two are one mutual family; the recursive functions over them come in groups
of one function for each nested shape (a term, a predicate, a list of terms, a
list of named arguments).
-/

import Factum.Host

namespace Factum

/-! ### Identifiers -/

/-- Unique node identifier. -/
structure NodeId where
  asStr : String
deriving DecidableEq, Repr

/-- Typed entity identifier. -/
structure EntityId where
  asStr : String
deriving DecidableEq, Repr

/-- Document identifier for provenance tracking. -/
structure DocId where
  asStr : String
deriving DecidableEq, Repr

/-- Byte span within a document. -/
structure Span where
  start : UInt32
  stop : UInt32
deriving DecidableEq, Repr

/-- Model reference for extracted provenance. -/
structure ModelRef where
  name : String
  version : String
deriving DecidableEq, Repr

/-- Who asserted or extracted a piece of knowledge. -/
structure Principal where
  asStr : String
deriving DecidableEq, Repr

/-- Rule identifier for derived provenance. -/
structure RuleId where
  asStr : String
deriving DecidableEq, Repr

/-- Global morpheme registry index. -/
structure MorphemeId where
  index : UInt32
deriving DecidableEq, Repr

/-! ### Validity and provenance -/

/-- Temporal validity of a node. A window without an end is open. -/
inductive Validity where
  | forever
  | window (from_ : DateTime) (until_ : Option DateTime)
deriving DecidableEq, Repr

/-- Whether a node with this validity is valid at an instant: from the start of its window
and before its end. -/
def Validity.isValidAt (validity : Validity) (t : DateTime) : Bool :=
  match validity with
  | .forever => true
  | .window from_ none => from_.le t
  | .window from_ (some until_) => from_.le t && t.lt until_

/-- The audit trail of a node. -/
inductive Provenance where
  | verbatim (doc : DocId) (span : Span)
  | summary (doc : DocId) (span : Span)
  | extracted (doc : DocId) (span : Span) (model : ModelRef)
  | derived (from_ : NodeId) (rule : RuleId)
  | asserted (by_ : Principal)
deriving DecidableEq, Repr

/-- The default provenance: asserted by the system. -/
def Provenance.default : Provenance := .asserted ⟨"system"⟩

/-- `matches!(p, Provenance::Derived { .. })`. -/
def Provenance.isDerived : Provenance → Bool
  | .derived _ _ => true
  | _ => false

/-! ### Scores -/

/-- The errors of the core constructors that the model reaches. -/
inductive CoreError (F : Type) where
  | confidenceOutOfRange (v : F)
  | authorityOutOfRange (v : F)
  | invalidDecimal (text : String)
  | decimalOverflow
deriving DecidableEq, Repr

/-- The `Display` text of a core error. -/
def CoreError.display {F : Type} (host : Host F) : CoreError F → String
  | .confidenceOutOfRange v => "confidence out of range [0,1]: " ++ host.f32Display v
  | .authorityOutOfRange v => "authority out of range [0,1]: " ++ host.f32Display v
  | .invalidDecimal text => "invalid decimal literal: " ++ text
  | .decimalOverflow => "decimal overflow: value exceeds i128 range"

/-- Confidence score, checked to lie in `[0, 1]` by `Confidence.new`. -/
structure Confidence (F : Type) where
  value : F
deriving DecidableEq, Repr

/-- Authority weight, checked to lie in `[0, 1]` by `Authority.new`. -/
structure Authority (F : Type) where
  value : F
deriving DecidableEq, Repr

section Scores

variable {F : Type} [F32 F]

/-- A confidence, if it lies in the unit interval. -/
def Confidence.new (v : F) : Except (CoreError F) (Confidence F) :=
  if F32.inUnit v then .ok ⟨v⟩ else .error (.confidenceOutOfRange v)

/-- An authority, if it lies in the unit interval. -/
def Authority.new (v : F) : Except (CoreError F) (Authority F) :=
  if F32.inUnit v then .ok ⟨v⟩ else .error (.authorityOutOfRange v)

/-- The conservative default confidence, 0.60. -/
def Confidence.default : Confidence F := ⟨F32.lit 60 2⟩

/-- The default authority, 0.5. -/
def Authority.default : Authority F := ⟨F32.lit 5 1⟩

end Scores

/-! ### Literals -/

/-- The 128-bit signed integers. -/
abbrev I128 := {value : Int // -2 ^ 127 ≤ value ∧ value < 2 ^ 127}

/-- The largest 128-bit signed integer. -/
def i128Max : Nat := 2 ^ 127 - 1

/-- An integer as an `i128`, when it is in range. -/
def I128.ofInt? (value : Int) : Option I128 :=
  if range : -2 ^ 127 ≤ value ∧ value < 2 ^ 127 then some ⟨value, range⟩ else none

/-- A standard-library duration: whole seconds and the nanoseconds within a second. -/
structure Duration where
  secs : UInt64
  nanos : Fin 1000000000
deriving DecidableEq, Repr

/-- `Duration::from_nanos(ns)`. -/
def Duration.fromNanos (ns : UInt64) : Duration :=
  ⟨ns / 1000000000, ⟨ns.toNat % 1000000000, Nat.mod_lt _ (by decide)⟩⟩

/-- `Duration::from_secs(secs)`. -/
def Duration.fromSecs (secs : UInt64) : Duration := ⟨secs, 0⟩

/-- `d.as_nanos()`, a `u128` that cannot overflow. -/
def Duration.asNanos (d : Duration) : Nat := d.secs.toNat * 1000000000 + d.nanos.val

/-- Literal values. A decimal is `mantissa · 10⁻ˢᶜᵃˡᵉ`, never a floating-point number. -/
inductive Literal where
  | dec (mantissa : I128) (scale : UInt8)
  | str (text : String)
  | date (d : NaiveDate)
  | dur (d : Duration)
  | bool (b : Bool)
  | uri (text : String)
deriving DecidableEq, Repr

/-- `char::is_whitespace`: the Unicode property `White_Space`. -/
def isWhitespace (c : Char) : Bool :=
  let n := c.toNat
  (9 ≤ n && n ≤ 13) || n == 32 || n == 0x85 || n == 0xA0 || n == 0x1680 ||
    (0x2000 ≤ n && n ≤ 0x200A) || n == 0x2028 || n == 0x2029 || n == 0x202F ||
    n == 0x205F || n == 0x3000

/-- `s.trim()`. -/
def trim (s : List Char) : List Char :=
  ((s.dropWhile isWhitespace).reverse.dropWhile isWhitespace).reverse

/-- The sign of a numeral and what follows it. -/
def splitSign (s : List Char) : Int × List Char :=
  match s with
  | '-' :: r => (-1, r)
  | '+' :: r => (1, r)
  | r => (1, r)

/-- `s.split_once('.')`, with the whole text and nothing when there is no point. -/
def splitPoint (s : List Char) : List Char × List Char :=
  match s.span (· != '.') with
  | (whole, _ :: fraction) => (whole, fraction)
  | (whole, []) => (whole, [])

/-- `Literal::dec_from_str`: create a decimal literal from a text like "230.50". The scale
is the length of the fraction cast to `u8`. -/
def Literal.decFromStr {F : Type} (text : String) : Except (CoreError F) Literal :=
  let s := trim text.toList
  let invalid := CoreError.invalidDecimal (String.ofList s)
  let (sign, rest) := splitSign s
  let (whole, fraction) := splitPoint rest
  if whole.isEmpty && fraction.isEmpty then .error invalid
  else if !(whole.all Char.isDigit) || !(fraction.all Char.isDigit) then .error invalid
  else
    let scale := UInt8.ofNat fraction.length
    let mantissa := Nat.ofDigitChars 10 (whole ++ fraction) 0
    if i128Max < mantissa then .error invalid
    else
      match I128.ofInt? (mantissa * sign) with
      | some mantissa => .ok (.dec mantissa scale)
      | none => .error .decimalOverflow

/-- The digits of a decimal: the absolute mantissa with the point `scale` places from its
end, and leading zeros where it has too few digits. -/
def decDigits (absolute : Nat) (scale : Nat) : List Char :=
  let s := Nat.toDigits 10 absolute
  if scale = 0 then s
  else if s.length ≤ scale then
    ['0', '.'] ++ List.replicate (scale - s.length) '0' ++ s
  else s.take (s.length - scale) ++ '.' :: s.drop (s.length - scale)

/-- The `Dec` case of `Literal::to_canonical_string`. -/
def decToString (mantissa : I128) (scale : UInt8) : String :=
  let result := decDigits mantissa.val.natAbs scale.toNat
  String.ofList (if mantissa.val < 0 then '-' :: result else result)

/-! ### Terms and predicates -/

/-- A predicate head: a resolved morpheme or a name not yet looked up. -/
inductive PredicateHead where
  | id (id : MorphemeId)
  | name (name : String)
deriving DecidableEq, Repr

mutual

/-- A term of a predicate. -/
inductive Term where
  | var (name : String)
  | ent (entity : EntityId)
  | lit (literal : Literal)
  | compound (pred : Predicate)
  | list (items : List Term)

/-- Content predicate: the assertion of a node. -/
structure Predicate where
  head : PredicateHead
  args : List Term
  named : List (String × Term)

end

mutual

/-- Decide whether two terms are the same. -/
def Term.decEq : (first second : Term) → Decidable (first = second)
  | .var s, .var t => decidable_of_iff (s = t) (by simp)
  | .ent s, .ent t => decidable_of_iff (s = t) (by simp)
  | .lit s, .lit t => decidable_of_iff (s = t) (by simp)
  | .compound s, .compound t =>
    have := Predicate.decEq s t
    decidable_of_iff (s = t) (by simp)
  | .list s, .list t =>
    have := Term.decEqList s t
    decidable_of_iff (s = t) (by simp)
  | .var _, .ent _ | .var _, .lit _ | .var _, .compound _ | .var _, .list _
  | .ent _, .var _ | .ent _, .lit _ | .ent _, .compound _ | .ent _, .list _
  | .lit _, .var _ | .lit _, .ent _ | .lit _, .compound _ | .lit _, .list _
  | .compound _, .var _ | .compound _, .ent _ | .compound _, .lit _ | .compound _, .list _
  | .list _, .var _ | .list _, .ent _ | .list _, .lit _ | .list _, .compound _ =>
    isFalse (by simp)
termination_by structural first => first

/-- Decide whether two predicates are the same. -/
def Predicate.decEq : (first second : Predicate) → Decidable (first = second)
  | ⟨head, args, named⟩, ⟨head', args', named'⟩ =>
    have := Term.decEqList args args'
    have := Term.decEqNamed named named'
    decidable_of_iff (head = head' ∧ args = args' ∧ named = named') (by simp)
termination_by structural first => first

/-- Decide whether two lists of terms are the same. -/
def Term.decEqList : (first second : List Term) → Decidable (first = second)
  | [], [] => isTrue rfl
  | [], _ :: _ | _ :: _, [] => isFalse (by simp)
  | t :: ts, u :: us =>
    have := Term.decEq t u
    have := Term.decEqList ts us
    decidable_of_iff (t = u ∧ ts = us) (by simp)
termination_by structural first => first

/-- Decide whether two lists of named arguments are the same. -/
def Term.decEqNamed : (first second : List (String × Term)) → Decidable (first = second)
  | [], [] => isTrue rfl
  | [], _ :: _ | _ :: _, [] => isFalse (by simp)
  | (k, t) :: ts, (l, u) :: us =>
    have := Term.decEq t u
    have := Term.decEqNamed ts us
    decidable_of_iff (k = l ∧ t = u ∧ ts = us) (by simp [and_assoc])
termination_by structural first => first

end

instance : DecidableEq Term := Term.decEq
instance : DecidableEq Predicate := Predicate.decEq

/-! ### Nodes -/

/-- Permission tag: a bit mask. -/
structure PermissionTag where
  bits : UInt32
deriving DecidableEq, Repr

namespace PermissionTag

/-- The tag `PUBLIC`. -/
def publicTag : PermissionTag := ⟨0b0001⟩

/-- The tag `INTERNAL`. -/
def internalTag : PermissionTag := ⟨0b0010⟩

/-- The tag `CONFIDENTIAL`. -/
def confidentialTag : PermissionTag := ⟨0b0100⟩

/-- The tag `RESTRICTED`. -/
def restrictedTag : PermissionTag := ⟨0b1000⟩

/-- Whether the tag grants access to a principal with the given role mask. -/
def grants (tag : PermissionTag) (roleMask : UInt32) : Bool := (tag.bits &&& roleMask) != 0

end PermissionTag

/-- Lifecycle status of a node. -/
inductive NodeStatus where
  | active
  | retracted
  | pending
deriving DecidableEq, Repr

/-- The `Debug` text of a status. -/
def NodeStatus.debug : NodeStatus → String
  | .active => "Active"
  | .retracted => "Retracted"
  | .pending => "Pending"

/-- The knowledge node. -/
structure Node (F : Type) where
  id : NodeId
  predicate : Predicate
  validity : Validity
  provenance : Provenance
  confidence : Confidence F
  authority : Authority F
  permissions : PermissionTag
  deps : List NodeId
  status : NodeStatus
  note : Option String
deriving DecidableEq

section Nodes

variable {F : Type}

/-- Create a node with default metadata. -/
def Node.new [F32 F] (id : String) (predicate : Predicate) : Node F where
  id := ⟨id⟩
  predicate
  validity := .forever
  provenance := .default
  confidence := .default
  authority := .default
  permissions := .publicTag
  deps := []
  status := .active
  note := none

/-- Whether the node is active and valid at an instant. -/
def Node.isActiveValidAt (node : Node F) (t : DateTime) : Bool :=
  node.status == .active && node.validity.isValidAt t

/-- Whether the cascade follows an edge into this node: it is derived and still active. -/
def Node.isActiveDerived (node : Node F) : Bool :=
  node.provenance.isDerived && node.status == .active

/-- The node marked as retracted. -/
def Node.retract (node : Node F) : Node F := { node with status := .retracted }

end Nodes

end Factum
