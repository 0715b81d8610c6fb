/-
This file embeds the canonical text of nodes and predicates.

The source pushes characters onto a buffer; here each function is the list of the
characters that it pushes, so that a text is the concatenation of its pieces.
Numbers, dates and instants are printed by the library functions of the host.
-/

import Factum.Types

namespace Factum

variable {F : Type} (host : Host F)

/-- Text between double quotes, as it is. -/
def quoted (text : List Char) : List Char := '"' :: text ++ ['"']

/-- A character of a string literal with its escape. -/
def escapeChar (c : Char) : List Char :=
  if c = '\\' then ['\\', '\\']
  else if c = '"' then ['\\', '"']
  else if c = '\n' then ['\\', 'n']
  else if c = '\t' then ['\\', 't']
  else if c = '\r' then ['\\', 'r']
  else [c]

/-- The characters of a string literal between its quotes. -/
def escape (text : List Char) : List Char := text.flatMap escapeChar

/-- The decimal digits of a natural number. -/
def decimal (n : Nat) : List Char := Nat.toDigits 10 n

/-- `format_f32_with_decimal`: a whole number keeps one decimal place. -/
def formatF32WithDecimal (v : F) : List Char :=
  let s := (host.f32Display v).toList
  if '.' ∈ s then s else s ++ ".0".toList

/-- `Literal::to_canonical_string`. -/
def Literal.toCanonicalString : Literal → List Char
  | .dec mantissa scale => (decToString mantissa scale).toList
  | .str text => quoted (text.toList.flatMap fun c =>
      if c = '\\' then ['\\', '\\'] else if c = '"' then ['\\', '"'] else [c])
  | .date d => (host.dateFormat d).toList
  | .dur d => decimal d.asNanos ++ "ns".toList
  | .bool b => if b then "true".toList else "false".toList
  | .uri text => '<' :: text.toList ++ ['>']

/-- The text of a literal. -/
def canonicalLiteral : Literal → List Char
  | .dec mantissa scale => (decToString mantissa scale).toList
  | .str text => quoted (escape text.toList)
  | .date d => "#date(".toList ++ (host.dateFormat d).toList ++ [')']
  | .dur d => "#dur(".toList ++ decimal d.asNanos ++ "ns)".toList
  | .bool b => if b then "#t".toList else "#f".toList
  | .uri text => '<' :: text.toList ++ ['>']

/-- The text of a head. -/
def canonicalHead : PredicateHead → List Char
  | .id id => 'M' :: decimal id.index.toNat
  | .name name => name.toList

mutual

/-- The text of a term. -/
def canonicalTerm : Term → List Char
  | .var name => '?' :: name.toList
  | .ent entity => '@' :: entity.asStr.toList
  | .lit literal => canonicalLiteral host literal
  | .compound pred => canonicalPredicateInner pred
  | .list items => '[' :: canonicalItems items ++ [']']

/-- The text of a predicate. -/
def canonicalPredicateInner : Predicate → List Char
  | ⟨head, args, named⟩ =>
    '(' :: canonicalHead head ++ canonicalArgs args ++ canonicalNamed named ++ [')']

/-- The items of a list, with a space between two. -/
def canonicalItems : List Term → List Char
  | [] => []
  | term :: rest => canonicalTerm term ++ canonicalArgs rest

/-- Terms with a space before each. -/
def canonicalArgs : List Term → List Char
  | [] => []
  | term :: rest => ' ' :: canonicalTerm term ++ canonicalArgs rest

/-- Named arguments with a space and a colon before each. -/
def canonicalNamed : List (String × Term) → List Char
  | [] => []
  | (key, term) :: rest =>
    ' ' :: ':' :: key.toList ++ ' ' :: canonicalTerm term ++ canonicalNamed rest

end

/-- Serialize a predicate to canonical form. -/
def canonicalPredicate (pred : Predicate) : String :=
  String.ofList (canonicalPredicateInner host pred)

/-- The text of a validity. -/
def canonicalValidity : Validity → List Char
  | .forever => "forever".toList
  | .window from_ until_ =>
    "(window ".toList ++ quoted (host.toRfc3339 from_).toList ++
      (match until_ with
        | some until_ => ' ' :: quoted (host.toRfc3339 until_).toList
        | none => []) ++ [')']

/-- The span of a provenance, with the bracket that closes it. -/
def canonicalSpan (span : Span) : List Char :=
  '[' :: decimal span.start.toNat ++ ' ' :: decimal span.stop.toNat ++ [']']

/-- The text of a provenance. -/
def canonicalProvenance : Provenance → List Char
  | .verbatim doc span =>
    "(verbatim ".toList ++ quoted doc.asStr.toList ++ ' ' :: canonicalSpan span ++ [')']
  | .summary doc span =>
    "(summary ".toList ++ quoted doc.asStr.toList ++ ' ' :: canonicalSpan span ++ [')']
  | .extracted doc span model =>
    "(extracted ".toList ++ quoted doc.asStr.toList ++ ' ' :: canonicalSpan span ++
      " (model ".toList ++ quoted model.name.toList ++ ' ' :: quoted model.version.toList ++
      "))".toList
  | .derived from_ rule =>
    "(derived ".toList ++ from_.asStr.toList ++ ' ' :: quoted rule.asStr.toList ++ [')']
  | .asserted by_ => "(asserted ".toList ++ quoted by_.asStr.toList ++ [')']

/-- The name of a permission tag; any other mask is `custom`. -/
def canonicalPermission (tag : PermissionTag) : List Char :=
  if tag = .publicTag then "public".toList
  else if tag = .internalTag then "internal".toList
  else if tag = .confidentialTag then "confidential".toList
  else if tag = .restrictedTag then "restricted".toList
  else "custom".toList

/-- The dependencies with a space between two. -/
def canonicalDeps : List NodeId → List Char
  | [] => []
  | [dep] => dep.asStr.toList
  | dep :: rest => dep.asStr.toList ++ ' ' :: canonicalDeps rest

/-- The text of a node. -/
def canonicalNode (node : Node F) : List Char :=
  "(node ".toList ++ node.id.asStr.toList ++
    " :pred ".toList ++ canonicalPredicateInner host node.predicate ++
    " :valid ".toList ++ canonicalValidity host node.validity ++
    " :src ".toList ++ canonicalProvenance node.provenance ++
    " :conf ".toList ++ formatF32WithDecimal host node.confidence.value ++
    " :auth ".toList ++ formatF32WithDecimal host node.authority.value ++
    " :perm ".toList ++ canonicalPermission node.permissions ++
    (if node.deps.isEmpty then [] else " :deps [".toList ++ canonicalDeps node.deps ++ [']']) ++
    (match node.note with
      | some note => " :note ".toList ++ quoted (escape note.toList)
      | none => []) ++ [')']

/-- Serialize a node to canonical form. -/
def canonical (node : Node F) : String := String.ofList (canonicalNode host node)

/-- Serialize several nodes, one on each line. -/
def canonicalAll (nodes : List (Node F)) : String :=
  String.ofList (nodes.flatMap fun node => canonicalNode host node ++ ['\n'])

end Factum
