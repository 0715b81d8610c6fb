/-
This file says which nodes print to a text that reads back, and what the tokens of that
text are.

What is asked of a node is in two parts. The first is what the parser makes sure of: words
where words are expected, scores in the unit interval, a depth within the limit. The second
is what the printer takes for granted without the parser making sure of it: entities that
are words of the entity scanner, durations within the nanoseconds that are read, and texts
of a provenance that need no escape.
-/

import Factum.Numerals

namespace Factum

open Lexer

/-! ### What is asked of a predicate -/

/-- What is asked of the names, the heads, the entities and the literals of a predicate. -/
structure Asks where
  name : String → Prop
  head : PredicateHead → Prop
  entity : EntityId → Prop
  literal : Literal → Prop

mutual

/-- Whether the parts of a term are as they are asked to be. -/
def Term.Meets (asks : Asks) : Term → Prop
  | .var name => asks.name name
  | .ent entity => asks.entity entity
  | .lit literal => asks.literal literal
  | .compound pred => pred.Meets asks
  | .list items => Term.AllMeet asks items

/-- Whether the parts of a predicate are as they are asked to be. -/
def Predicate.Meets (asks : Asks) : Predicate → Prop
  | ⟨head, args, named⟩ =>
    asks.head head ∧ Term.AllMeet asks args ∧ Term.AllMeetNamed asks named

/-- Whether the parts of terms are as they are asked to be. -/
def Term.AllMeet (asks : Asks) : List Term → Prop
  | [] => True
  | term :: rest => term.Meets asks ∧ Term.AllMeet asks rest

/-- Whether the parts of named arguments are as they are asked to be. -/
def Term.AllMeetNamed (asks : Asks) : List (String × Term) → Prop
  | [] => True
  | (key, term) :: rest =>
    asks.name key ∧ term.Meets asks ∧ Term.AllMeetNamed asks rest

end

/-- A head that is the name of a predicate. -/
def PredicateHead.IsName : PredicateHead → Prop
  | .id _ => False
  | .name text => IsSymbol text

/-- A literal whose text ends where it is closed. -/
def Literal.Closed : Literal → Prop
  | .uri text => '>' ∉ text.toList
  | _ => True

/-- What the parser makes sure of in the parts of a predicate. -/
def Asks.lexical : Asks where
  name := IsWord isNameByte
  head := PredicateHead.IsName
  entity := fun _ => True
  literal := fun
    | .dec mantissa _ => mantissa.val.natAbs ≤ i128Max
    | .uri text => '>' ∉ text.toList
    | _ => True

theorem closed_of_lexical {literal : Literal} (lexical : Asks.lexical.literal literal) :
    literal.Closed := by
  cases literal with
  | uri text => exact lexical
  | _ => exact trivial

/-- What the printer takes for granted in the parts of a predicate. -/
def Asks.plain : Asks where
  name := fun _ => True
  head := fun _ => True
  entity := fun entity => IsWord isEntityByte entity.asStr
  literal := fun
    | .dur d => d.asNanos < 2 ^ 64
    | _ => True

/-! ### Nesting -/

mutual

/-- How deep the compounds and lists of a term are nested. -/
def Term.nesting : Term → Nat
  | .var _ => 0
  | .ent _ => 0
  | .lit _ => 0
  | .compound pred => pred.nesting + 1
  | .list items => Term.nestingAll items + 1

/-- How deep the arguments of a predicate are nested. -/
def Predicate.nesting : Predicate → Nat
  | ⟨_, args, named⟩ => max (Term.nestingAll args) (Term.nestingNamed named)

/-- How deep the deepest of some terms is nested. -/
def Term.nestingAll : List Term → Nat
  | [] => 0
  | term :: rest => max term.nesting (Term.nestingAll rest)

/-- How deep the deepest of some named arguments is nested. -/
def Term.nestingNamed : List (String × Term) → Nat
  | [] => 0
  | (_, term) :: rest => max term.nesting (Term.nestingNamed rest)

end

/-- The deepest nesting below the predicate of a node. -/
def maxNesting : Nat := 126

/-! ### What is asked of a node -/

/-- A text that is the same between quotes, without escapes. -/
def IsPlainText (text : String) : Prop := ∀ c ∈ text.toList, c ≠ '"' ∧ c ≠ '\\'

instance (text : String) : Decidable (IsPlainText text) :=
  decidable_of_iff (text.toList.all fun c => c != '"' && c != '\\')
    (by simp [IsPlainText, List.all_eq_true])

/-- What the parser makes sure of in a provenance. -/
def Provenance.Lexical : Provenance → Prop
  | .derived from_ _ => IsSymbol from_.asStr
  | _ => True

/-- What the printer takes for granted in a provenance. -/
def Provenance.Plain : Provenance → Prop
  | .verbatim doc _ => IsPlainText doc.asStr
  | .summary doc _ => IsPlainText doc.asStr
  | .extracted doc _ model =>
    IsPlainText doc.asStr ∧ IsPlainText model.name ∧ IsPlainText model.version
  | .derived _ rule => IsPlainText rule.asStr
  | .asserted by_ => IsPlainText by_.asStr

/-- A permission tag with a name. -/
def PermissionTag.IsNamed (tag : PermissionTag) : Prop :=
  tag = .publicTag ∨ tag = .internalTag ∨ tag = .confidentialTag ∨ tag = .restrictedTag

section Nodes

variable {F : Type} [F32 F]

/-- What the parser makes sure of in a node. -/
structure Node.Lexical (node : Node F) : Prop where
  active : node.status = .active
  id : IsSymbol node.id.asStr
  predicate : node.predicate.Meets .lexical
  nesting : node.predicate.nesting ≤ maxNesting
  provenance : node.provenance.Lexical
  confidence : F32.inUnit node.confidence.value = true
  authority : F32.inUnit node.authority.value = true
  permissions : node.permissions.IsNamed
  deps : ∀ dep ∈ node.deps, IsSymbol dep.asStr

/-- What the printer takes for granted in a node. -/
structure Node.Plain (node : Node F) : Prop where
  predicate : node.predicate.Meets .plain
  provenance : node.provenance.Plain

/-- What makes a node print to a text that reads back. -/
structure Node.Printable (node : Node F) : Prop extends node.Lexical where
  plain : node.Plain

end Nodes

/-! ### The tokens of a printed node -/

variable {F : Type} (host : Host F)

/-- The token of a literal. -/
def Literal.token : Literal → TokenKind
  | .dec mantissa scale => .number (decToString mantissa scale)
  | .str text => .str text
  | .date d => .date (host.dateFormat d)
  | .dur d => .duration (String.ofList (durationText d))
  | .bool b => .bool b
  | .uri text => .uri text

mutual

/-- The tokens of a term. -/
def Term.tokens : Term → List TokenKind
  | .var name => [.var name]
  | .ent entity => [.entity entity.asStr]
  | .lit literal => [literal.token host]
  | .compound pred => pred.tokens
  | .list items => .lBracket :: (Term.tokensAll items ++ [.rBracket])

/-- The tokens of a predicate. -/
def Predicate.tokens : Predicate → List TokenKind
  | ⟨head, args, named⟩ =>
    .lParen :: .symbol (String.ofList (canonicalHead head)) ::
      (Term.tokensAll args ++ Term.tokensNamed named ++ [.rParen])

/-- The tokens of terms. -/
def Term.tokensAll : List Term → List TokenKind
  | [] => []
  | term :: rest => term.tokens ++ Term.tokensAll rest

/-- The tokens of named arguments. -/
def Term.tokensNamed : List (String × Term) → List TokenKind
  | [] => []
  | (key, term) :: rest => .keyword key :: (term.tokens ++ Term.tokensNamed rest)

end

/-- The tokens of a validity. -/
def Validity.tokens : Validity → List TokenKind
  | .forever => [.symbol "forever"]
  | .window from_ until_ =>
    [.lParen, .symbol "window", .str (host.toRfc3339 from_)] ++
      (match until_ with
        | some until_ => [.str (host.toRfc3339 until_)]
        | none => []) ++ [.rParen]

/-- The tokens of a span. -/
def Span.tokens (span : Span) : List TokenKind :=
  [.lBracket, .number (String.ofList (decimal span.start.toNat)),
    .number (String.ofList (decimal span.stop.toNat)), .rBracket]

/-- The tokens of a provenance. -/
def Provenance.tokens : Provenance → List TokenKind
  | .verbatim doc span =>
    [.lParen, .symbol "verbatim", .str doc.asStr] ++ span.tokens ++ [.rParen]
  | .summary doc span =>
    [.lParen, .symbol "summary", .str doc.asStr] ++ span.tokens ++ [.rParen]
  | .extracted doc span model =>
    [.lParen, .symbol "extracted", .str doc.asStr] ++ span.tokens ++
      [.lParen, .symbol "model", .str model.name, .str model.version, .rParen, .rParen]
  | .derived from_ rule =>
    [.lParen, .symbol "derived", .symbol from_.asStr, .str rule.asStr, .rParen]
  | .asserted by_ => [.lParen, .symbol "asserted", .str by_.asStr, .rParen]

/-- The tokens of a list of dependencies. -/
def depsTokens (deps : List NodeId) : List TokenKind :=
  .lBracket :: (deps.map (fun dep => .symbol dep.asStr) ++ [.rBracket])

/-- A field of a printed node: its keyword, and the text and the tokens of its value. -/
structure PrintedField where
  key : String
  text : List Char
  kinds : List TokenKind

/-- The tokens of a field. -/
def PrintedField.tokens (field : PrintedField) : List TokenKind := .keyword field.key :: field.kinds

/-- The field of a printed number in the unit interval. -/
def PrintedField.f32 (key : String) (v : F) : PrintedField :=
  ⟨key, formatF32WithDecimal host v, [.number (String.ofList (formatF32WithDecimal host v))]⟩

/-- The fields that every node prints. -/
def Node.fixedFields (node : Node F) : List PrintedField :=
  [⟨"pred", canonicalPredicateInner host node.predicate, node.predicate.tokens host⟩,
    ⟨"valid", canonicalValidity host node.validity, node.validity.tokens host⟩,
    ⟨"src", canonicalProvenance node.provenance, node.provenance.tokens⟩,
    .f32 host "conf" node.confidence.value, .f32 host "auth" node.authority.value,
    ⟨"perm", canonicalPermission node.permissions,
      [.symbol (String.ofList (canonicalPermission node.permissions))]⟩]

/-- The dependencies, which are printed when there are any. -/
def Node.depsField (node : Node F) : List PrintedField :=
  if node.deps.isEmpty then []
  else [⟨"deps", '[' :: (canonicalDeps node.deps ++ [']']), depsTokens node.deps⟩]

/-- The note, which is printed when there is one. -/
def Node.noteField (node : Node F) : List PrintedField :=
  match node.note with
  | some note => [⟨"note", quoted (escape note.toList), [.str note]⟩]
  | none => []

/-- The fields of a printed node. -/
def Node.fields (node : Node F) : List PrintedField :=
  node.fixedFields host ++ node.depsField ++ node.noteField

/-- The tokens of a node. -/
def Node.tokens (node : Node F) : List TokenKind :=
  [.lParen, .symbol "node", .symbol node.id.asStr] ++
    (node.fields host).flatMap PrintedField.tokens ++ [.rParen]

end Factum
