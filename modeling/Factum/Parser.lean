/-
This file embeds the recursive-descent parser.

The parser reads a list of tokens that ends in the end-of-input token and counts
how deep it has recursed. Its state here holds the tokens it has not read yet
instead of all tokens and an index. Every recursive function and every loop carries
fuel; a call from the top has more of it than it has tokens to read.
-/

import Factum.Lexer
import Factum.Library.Stateful

namespace Factum

open Stateful

/-- Maximum nesting depth for recursive-descent parsing. -/
def maxParseDepth : Nat := 128

/-- Parse error with location info. -/
structure ParseError where
  message : String
  line : Nat
  col : Nat
  offset : Nat
deriving DecidableEq, Repr

/-- The `Display` text of a parse error. -/
def ParseError.display (error : ParseError) : String :=
  "Parse error at line " ++ toString error.line ++ " col " ++ toString error.col ++ ": " ++
    error.message

/-- The parser: the tokens it has not read, and its depth. -/
structure Parser where
  tokens : List Token
  depth : Nat
deriving DecidableEq, Repr

/-- A computation of the parser. -/
abbrev ParserM := EStateM (Stop ParseError) Parser

/-- The `Debug` text of a token kind. -/
def TokenKind.debug (strDebug : String → String) : TokenKind → String
  | .lParen => "LParen"
  | .rParen => "RParen"
  | .lBracket => "LBracket"
  | .rBracket => "RBracket"
  | .symbol s => "Symbol(" ++ strDebug s ++ ")"
  | .var s => "Var(" ++ strDebug s ++ ")"
  | .keyword s => "Keyword(" ++ strDebug s ++ ")"
  | .str s => "Str(" ++ strDebug s ++ ")"
  | .number s => "Number(" ++ strDebug s ++ ")"
  | .date s => "Date(" ++ strDebug s ++ ")"
  | .duration s => "Duration(" ++ strDebug s ++ ")"
  | .bool b => "Bool(" ++ (if b then "true" else "false") ++ ")"
  | .uri s => "Uri(" ++ strDebug s ++ ")"
  | .entity s => "Entity(" ++ strDebug s ++ ")"
  | .eof => "Eof"

/-! ### Integers of the standard library -/

/-- The digits of an unsigned integer below a bound, read from the left. -/
def parseDigits (bound : Nat) : List Char → Nat → Except String Nat
  | [], result => .ok result
  | c :: rest, result =>
    if !c.isDigit then .error "invalid digit found in string"
    else if bound ≤ result * 10 + (c.toNat - '0'.toNat) then
      .error "number too large to fit in target type"
    else parseDigits bound rest (result * 10 + (c.toNat - '0'.toNat))

/-- `s.parse::<uN>()` for the integers below a bound: a plus sign may stand before digits. -/
def parseUnsigned (bound : Nat) (text : List Char) : Except String Nat :=
  match text with
  | [] => .error "cannot parse integer from empty string"
  | ['+'] => .error "invalid digit found in string"
  | '+' :: digits => parseDigits bound digits 0
  | digits => parseDigits bound digits 0

/-- `s.strip_suffix(suffix)`. -/
def stripSuffix (suffix text : List Char) : Option (List Char) :=
  if suffix.isSuffixOf text then some (text.take (text.length - suffix.length)) else none

/-- The seconds of a unit of time. -/
def unitSecs (unit : List Char) : Option UInt64 :=
  if unit = ['s'] then some 1
  else if unit = ['m'] then some 60
  else if unit = ['h'] then some 3600
  else if unit = ['d'] then some 86400
  else none

/-- `parse_duration`: a duration like "30d", "12h", "5m", "10s" or "60000000000ns". Seconds
wrap around as 64-bit integers. -/
def parseDuration (text : String) : Except String Duration := do
  let s := trim text.toList
  if s.isEmpty then throw "empty duration"
  match stripSuffix "ns".toList s with
  | some rest =>
    let ns ← parseUnsigned (2 ^ 64) rest
    return .fromNanos (UInt64.ofNat ns)
  | none =>
    let num ← parseUnsigned (2 ^ 64) (s.takeWhile Char.isDigit)
    let unit := s.dropWhile Char.isDigit
    match unitSecs unit with
    | some secs => return .fromSecs (UInt64.ofNat num * secs)
    | none => throw ("unknown duration unit: " ++ String.ofList unit)

namespace Parser

/-! ### Reading tokens -/

/-- The error at the token that is next. -/
def error (parser : Parser) (message : String) : Stop ParseError :=
  match parser.tokens with
  | [] => .panic
  | tok :: _ => .fail ⟨message, tok.line, tok.col, tok.offset⟩

/-- Fail at the current token. -/
def failWith {α : Type} (message : String) : ParserM α :=
  fun parser => .error (parser.error message) parser

/-- A result of a library, with its error placed at the next token. -/
def orError {α : Type} : Except String α → ParserM α
  | .ok value => return value
  | .error message => failWith message

/-- The kind of the current token. -/
def peekKind : ParserM TokenKind := fun parser =>
  match parser.tokens with
  | [] => .error .panic parser
  | tok :: _ => .ok tok.kind parser

/-- The kind of a token further on, if there is one. -/
def peekKindAt (offset : Nat) : ParserM (Option TokenKind) := do
  return (← get).tokens[offset]?.map (·.kind)

/-- Whether the input ends here. -/
def isAtEnd : ParserM Bool := return (← peekKind) == .eof

/-- Read the next token. The end of the input is never passed. -/
def advance : ParserM TokenKind := fun parser =>
  match parser.tokens with
  | [] => .error .panic parser
  | tok :: rest =>
    if tok.kind = .eof then .ok tok.kind parser else .ok tok.kind { parser with tokens := rest }

section Methods

variable {F : Type} [F32 F] (host : Host F)

/-- Read a token of the given kind, whatever its text. -/
def expect (kind : TokenKind) : ParserM TokenKind := do
  let got ← peekKind
  if got.ctorIdx = kind.ctorIdx then advance
  else if kind = .rParen ∧ got = .eof then
    failWith "UnbalancedParen: unexpected end of input, missing closing ')'"
  else
    failWith
      ("expected " ++ kind.debug host.strDebug ++ ", got " ++ got.debug host.strDebug)

/-- Run a computation one level deeper, unless that is too deep. -/
def withDepth {α : Type} (computation : ParserM α) : ParserM α := fun parser =>
  if maxParseDepth ≤ parser.depth then
    .error (parser.error ("DepthLimitExceeded: maximum nesting depth (" ++
      toString maxParseDepth ++ ") exceeded — possible malformed or adversarial input")) parser
  else
    match computation { parser with depth := parser.depth + 1 } with
    | .ok value after => .ok value { after with depth := after.depth - 1 }
    | .error stop after => .error stop { after with depth := after.depth - 1 }

/-- The loop of `skip_sexp`, with the closing kind and the number of open brackets. -/
def skipSexpLoop (close : TokenKind) : Nat → Nat → ParserM Unit
  | 0, _ => throw .fuel
  | fuel + 1, depth => do
    if depth = 0 ∨ (← isAtEnd) then return
    let kind ← peekKind
    discard advance
    match kind with
    | .lParen | .lBracket => skipSexpLoop close fuel (depth + 1)
    | .rParen | .rBracket =>
      skipSexpLoop close fuel (if kind = close then depth - 1 else depth)
    | _ => skipSexpLoop close fuel depth

/-- Skip a balanced form, or one token. -/
def skipSexp : ParserM Unit := do
  match ← peekKind with
  | .lParen => do
    discard advance
    skipSexpLoop .rParen ((← get).tokens.length + 1) 1
  | .lBracket => do
    discard advance
    skipSexpLoop .rBracket ((← get).tokens.length + 1) 1
  | _ => discard advance

/-- Read this symbol. -/
def expectSymbol (expected : String) : ParserM Unit := do
  if (← peekKind) = .symbol expected then discard advance
  else failWith ("expected symbol '" ++ expected ++ "'")

/-! ### Tokens with a meaning -/

/-- Read a number. -/
def parseF32 : ParserM F := do
  match ← advance with
  | .number s => orError (host.f32FromStr s)
  | _ => failWith "expected number"

/-- The permission tag of a name. -/
def namedPermission (s : String) : Option PermissionTag :=
  if s = "public" then some .publicTag
  else if s = "internal" then some .internalTag
  else if s = "confidential" then some .confidentialTag
  else if s = "restricted" then some .restrictedTag
  else none

/-- Read a permission tag. -/
def parsePermissionTag : ParserM PermissionTag := do
  match ← advance with
  | .symbol s =>
    match namedPermission s with
    | some tag => return tag
    | none => failWith ("unknown permission tag: " ++ s)
  | _ => failWith "expected permission tag symbol"

/-- Read identifiers up to the closing bracket. -/
def parseIdListLoop : Nat → List NodeId → ParserM (List NodeId)
  | 0, _ => throw .fuel
  | fuel + 1, ids => do
    match ← peekKind with
    | .rBracket | .eof => return ids
    | _ =>
      match ← advance with
      | .symbol s => parseIdListLoop fuel (ids ++ [⟨s⟩])
      | _ => failWith "expected node id in deps list"

/-- A single identifier or a list of identifiers. -/
def parseIdList : ParserM (List NodeId) := do
  if (← peekKind) = .lBracket then
    discard advance
    let ids ← parseIdListLoop ((← get).tokens.length + 1) []
    discard (expect host .rBracket)
    return ids
  else
    match ← advance with
    | .symbol s => return [⟨s⟩]
    | _ => failWith "expected node id"

/-- A symbol or a string. -/
def parseText (message : String) : ParserM String := do
  match ← advance with
  | .symbol s => return s
  | .str s => return s
  | _ => failWith message

/-- Read a document. -/
def parseDocId : ParserM DocId := return ⟨← parseText "expected document id"⟩

/-- Read a string or a symbol. -/
def parseSmolStr : ParserM String := parseText "expected string or symbol"

/-- Read a rule. -/
def parseRuleId : ParserM RuleId := return ⟨← parseSmolStr⟩

/-- Read a principal. -/
def parsePrincipal : ParserM Principal := return ⟨← parseSmolStr⟩

/-- Read a number of 32 bits. -/
def parseU32 : ParserM UInt32 := do
  match ← advance with
  | .number s => return UInt32.ofNat (← orError (parseUnsigned (2 ^ 32) s.toList))
  | _ => failWith "expected number"

/-- A span, in brackets or not. -/
def parseSpan : ParserM Span := do
  if (← peekKind) = .lBracket then
    discard advance
    let start ← parseU32
    let stop ← parseU32
    discard (expect host .rBracket)
    return ⟨start, stop⟩
  else
    let start ← parseU32
    let stop ← parseU32
    return ⟨start, stop⟩

/-- A model reference, in a form of its own or as two texts. -/
def parseModelRef : ParserM ModelRef := do
  match ← peekKind with
  | .lParen => do
    discard advance
    expectSymbol "model"
    let name ← parseSmolStr
    let version ← parseSmolStr
    discard (expect host .rParen)
    return ⟨name, version⟩
  | .symbol _ | .str _ => do
    let name ← parseSmolStr
    let version ← parseSmolStr
    return ⟨name, version⟩
  | _ =>
    failWith
      ("MissingModelRef: Extracted provenance must carry model reference (model name version) " ++
        "or (model name version)")

/-- The fields of a provenance of a kind. -/
def parseProvenanceOf (kind : String) : ParserM Provenance := do
  if kind = "verbatim" then
    let doc ← parseDocId
    let span ← parseSpan host
    return .verbatim doc span
  else if kind = "summary" then
    let doc ← parseDocId
    let span ← parseSpan host
    return .summary doc span
  else if kind = "extracted" then
    let doc ← parseDocId
    let span ← parseSpan host
    let model ← parseModelRef host
    return .extracted doc span model
  else if kind = "derived" then
    match ← advance with
    | .symbol from_ =>
      let rule ← parseRuleId
      return .derived ⟨from_⟩ rule
    | _ => failWith "expected node id for derived from"
  else if kind = "asserted" then
    let by_ ← parsePrincipal
    return .asserted by_
  else failWith ("unknown provenance kind: " ++ kind)

/-- Read a provenance. -/
def parseProvenance : ParserM Provenance := do
  discard (expect host .lParen)
  match ← advance with
  | .symbol kind =>
    let result ← parseProvenanceOf host kind
    discard (expect host .rParen)
    return result
  | _ => failWith "expected provenance kind symbol"

/-- Read a date, with a time or at midnight. -/
def parseDatetime : ParserM DateTime := do
  match ← advance with
  | .date s => return (← orError (host.dateFromStr s)).midnight
  | .str s => orError (host.datetimeFromStr s)
  | _ => failWith "expected date or datetime string"

/-- The end of a window, unless the window is open. -/
def parseUntil : ParserM (Option DateTime) := do
  if (← peekKind) = .rParen then return none
  else
    let until_ ← parseDatetime host
    return some until_

/-- Read a validity. -/
def parseValidity : ParserM Validity := do
  match ← peekKind with
  | .symbol "forever" => do
    discard advance
    return .forever
  | .lParen => do
    discard advance
    expectSymbol "window"
    let from_ ← parseDatetime host
    let until_ ← parseUntil host
    discard (expect host .rParen)
    return .window from_ until_
  | _ => failWith "expected 'forever' or '(window ...)' for validity"

/-! ### Terms and predicates -/

mutual

/-- Read a term. -/
def parseTerm : Nat → ParserM Term
  | 0 => throw .fuel
  | fuel + 1 => do
    match ← peekKind with
    | .var s => do
      discard advance
      return .var s
    | .entity s => do
      discard advance
      return .ent ⟨s⟩
    | .number s => do
      discard advance
      let literal ← orError ((Literal.decFromStr s).mapError (CoreError.display host))
      return .lit literal
    | .str s => do
      discard advance
      return .lit (.str s)
    | .bool b => do
      discard advance
      return .lit (.bool b)
    | .date s => do
      discard advance
      return .lit (.date (← orError (host.dateFromStr s)))
    | .duration s => do
      discard advance
      return .lit (.dur (← orError (parseDuration s)))
    | .uri s => do
      discard advance
      return .lit (.uri s)
    | .lParen => withDepth do
      discard advance
      let pred ← parsePredicateBodyInner fuel
      discard (expect host .rParen)
      return .compound pred
    | .lBracket => withDepth do
      discard advance
      let items ← parseItems fuel []
      discard (expect host .rBracket)
      return .list items
    -- a bare symbol is an entity reference
    | .symbol s => do
      discard advance
      return .ent ⟨s⟩
    | kind => failWith ("unexpected token in term position: " ++ kind.debug host.strDebug)

/-- The items of a list, up to its closing bracket. -/
def parseItems : Nat → List Term → ParserM (List Term)
  | 0, _ => throw .fuel
  | fuel + 1, items => do
    match ← peekKind with
    | .rBracket | .eof => return items
    | _ =>
      let term ← parseTerm fuel
      parseItems fuel (items ++ [term])

/-- A predicate between its parentheses: a head, positional and then named arguments. -/
def parsePredicateBodyInner : Nat → ParserM Predicate
  | 0 => throw .fuel
  | fuel + 1 => do
    match ← advance with
    | .symbol s => parseArguments fuel ⟨.name s, [], []⟩ false
    | _ => failWith "expected predicate head symbol"

/-- The arguments of a predicate, up to its closing parenthesis. -/
def parseArguments : Nat → Predicate → Bool → ParserM Predicate
  | 0, _, _ => throw .fuel
  | fuel + 1, pred, inNamed => do
    match ← peekKind with
    | .rParen | .eof => return pred
    | .keyword key => do
      discard advance
      let val ← parseTerm fuel
      parseArguments fuel { pred with named := pred.named ++ [(key, val)] } true
    | _ =>
      if inNamed then
        failWith ("NamedArgBeforePositional: positional argument after named argument — " ++
          "named args must be last")
      else
        let term ← parseTerm fuel
        parseArguments fuel { pred with args := pred.args ++ [term] } inNamed

end

/-- Fuel for a term or predicate from here: each token is read by two calls at most. -/
def termFuel (parser : Parser) : Nat := 2 * parser.tokens.length + 2

/-- Read a predicate with its parentheses. -/
def parsePredicateForm : ParserM Predicate := withDepth do
  discard (expect host .lParen)
  let pred ← parsePredicateBodyInner host (← get).termFuel
  discard (expect host .rParen)
  return pred

/-- Read a head and its arguments, without parentheses around them. -/
def parsePredicateBody : ParserM Predicate := withDepth do
  parsePredicateBodyInner host (← get).termFuel

/-! ### Nodes -/

/-- What the body of a node has said so far. -/
structure NodeFields (F : Type) where
  predicate : Option Predicate
  validity : Validity
  provenance : Provenance
  confidence : Confidence F
  authority : Authority F
  permissions : PermissionTag
  deps : List NodeId
  note : Option String

/-- The defaults of a node's fields. -/
def NodeFields.default : NodeFields F where
  predicate := none
  validity := .forever
  provenance := .default
  confidence := .default
  authority := .default
  permissions := .publicTag
  deps := []
  note := none

/-- The field that a keyword introduces. -/
def parseField (fields : NodeFields F) (key : String) : ParserM (NodeFields F) := do
  if key = "pred" then
    return { fields with predicate := some (← parsePredicateForm host) }
  else if key = "valid" then
    return { fields with validity := ← parseValidity host }
  else if key = "src" then
    return { fields with provenance := ← parseProvenance host }
  else if key = "conf" then
    let v ← parseF32 host
    return { fields with
      confidence := ← orError ((Confidence.new v).mapError (CoreError.display host)) }
  else if key = "auth" then
    let v ← parseF32 host
    return { fields with
      authority := ← orError ((Authority.new v).mapError (CoreError.display host)) }
  else if key = "perm" then
    return { fields with permissions := ← parsePermissionTag }
  else if key = "deps" then
    return { fields with deps := ← parseIdList host }
  else if key = "note" then
    return { fields with
      note := some (← parseText "expected string or symbol for :note field") }
  else
    failWith ("UnknownNodeField: unknown node field :" ++ key ++
      ". Valid fields: :pred, :valid, :src, :conf, :auth, :perm, :deps, :note")

/-- The body of a node, up to its closing parenthesis. -/
def parseFields : Nat → NodeFields F → ParserM (NodeFields F)
  | 0, _ => throw .fuel
  | fuel + 1, fields => do
    match ← peekKind with
    | .rParen | .eof => return fields
    | .keyword key => do
      discard advance
      let fields ← parseField host fields key
      parseFields fuel fields
    | kind => failWith ("expected keyword argument, got " ++ kind.debug host.strDebug)

/-- Read a node. -/
def parseNode : ParserM (Node F) := withDepth do
  discard (expect host .lParen)
  expectSymbol "node"
  match ← advance with
  | .symbol id =>
    let fields ← parseFields host ((← get).tokens.length + 1) .default
    discard (expect host .rParen)
    match fields.predicate with
    | none => failWith "MissingPredField: node missing :pred field"
    | some predicate =>
      return {
        id := ⟨id⟩
        predicate
        validity := fields.validity
        provenance := fields.provenance
        confidence := fields.confidence
        authority := fields.authority
        permissions := fields.permissions
        deps := fields.deps
        status := .active
        note := fields.note }
  | _ => failWith "expected node id"

/-- The top level: nodes, with other forms and stray tokens skipped. -/
def parseTop : Nat → List (Node F) → ParserM (List (Node F))
  | 0, _ => throw .fuel
  | fuel + 1, nodes => do
    match ← peekKind with
    | .eof => return nodes
    | .lParen => do
      if (← peekKindAt 1) = some (.symbol "node") then
        let node ← parseNode host
        parseTop fuel (nodes ++ [node])
      else
        skipSexp
        parseTop fuel nodes
    | _ => do
      discard advance
      parseTop fuel nodes

/-- The tokens of a source, unless they are too many. -/
def tokensOf (src : String) : Except (Stop ParseError) (List Token) :=
  match tokenize src with
  | .error (.fail error) => .error (.fail ⟨error.message, error.line, error.col, error.offset⟩)
  | .error .panic => .error .panic
  | .error .fuel => .error .fuel
  | .ok tokens =>
    if maxTokens < tokens.length then
      .error (.fail ⟨"input exceeds maximum token count (1000000)", 0, 0, 0⟩)
    else .ok tokens

/-- `Parser::parse`: parse a source string into a list of nodes. -/
def parse (src : String) : Except (Stop ParseError) (List (Node F)) := do
  let tokens ← tokensOf src
  answer (parseTop host (tokens.length + 1) []) ⟨tokens, 0⟩

/-- `Parser::parse_predicate`: parse a single predicate. -/
def parsePredicate (src : String) : Except (Stop ParseError) Predicate := do
  let tokens ← tokensOf src
  answer (do
    discard (expect host .lParen)
    let pred ← parsePredicateBody host
    discard (expect host .rParen)
    return pred) ⟨tokens, 0⟩

end Methods

end Parser

end Factum
