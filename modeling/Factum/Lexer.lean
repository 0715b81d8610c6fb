/-
This file embeds the S-expression lexer.

The lexer walks over the bytes of the source with a position, a line and a
column. Its state here holds the bytes it has not read yet instead of the whole
source and an index into it; reading the byte at the position is reading the
head of that list. Loops that read one character of one to four bytes in each
round carry fuel for the bytes that are left, and running out of it is an
outcome of its own that no source text reaches.
-/

import Factum.Types
import Factum.Library.Utf8

namespace Factum

/-! ### Tokens -/

/-- Token kinds of the S-expression syntax. -/
inductive TokenKind where
  | lParen
  | rParen
  | lBracket
  | rBracket
  | symbol (text : String)
  | var (name : String)
  | keyword (name : String)
  | str (text : String)
  | number (text : String)
  | date (text : String)
  | duration (text : String)
  | bool (b : Bool)
  | uri (text : String)
  | entity (name : String)
  | eof
deriving DecidableEq, Repr

/-- A token with the position of its first byte. -/
structure Token where
  kind : TokenKind
  offset : Nat
  line : Nat
  col : Nat
deriving DecidableEq, Repr

/-- Lexing error. -/
structure LexError where
  message : String
  offset : Nat
  line : Nat
  col : Nat
deriving DecidableEq, Repr

/-- The lexer: the bytes from the position on, and the position. -/
structure Lexer where
  src : List UInt8
  pos : Nat
  line : Nat
  col : Nat
deriving DecidableEq, Repr

/-- A computation of the lexer. -/
abbrev LexM := EStateM (Stop LexError) Lexer

/-- The most tokens the lexer returns before it gives up. -/
def maxTokens : Nat := 1000000

/-- The byte of an ASCII character. -/
def byte (c : Char) : UInt8 := UInt8.ofNat c.toNat

/-- `c as char` on a byte. -/
def latin1 (c : UInt8) : Char := Char.ofNat c.toNat

/-- `c.is_ascii_digit()`. -/
def isAsciiDigit (c : UInt8) : Bool := byte '0' ≤ c && c ≤ byte '9'

/-- `c.is_ascii_alphanumeric()`. -/
def isAsciiAlphanumeric (c : UInt8) : Bool :=
  isAsciiDigit c || (byte 'a' ≤ c && c ≤ byte 'z') || (byte 'A' ≤ c && c ≤ byte 'Z')

/-- The bytes of a variable name or a keyword. -/
def isNameByte (c : UInt8) : Bool :=
  isAsciiAlphanumeric c || c == byte '-' || c == byte '_' || 0x80 ≤ c

/-- The bytes of an entity name. -/
def isEntityByte (c : UInt8) : Bool :=
  isAsciiAlphanumeric c || c == byte '-' || c == byte '_' || c == byte ':' || c == byte '.' ||
    0x80 ≤ c

/-- The bytes of a symbol: all but these delimiters. -/
def isSymbolByte (c : UInt8) : Bool :=
  !(c == byte '(' || c == byte ')' || c == byte '[' || c == byte ']' || c == byte ' ' ||
    c == byte '\t' || c == byte '\n' || c == byte '\r' || c == byte ';' || c == byte '"' ||
    c == byte ':' || c == byte '?' || c == byte '@' || c == byte '<' || c == byte '#')

/-! ### Reading bytes -/

namespace Lexer

/-- `Lexer::new(src)`. -/
def new (src : String) : Lexer := ⟨Utf8.bytes src.toList, 0, 1, 1⟩

/-- Move over one byte. -/
def step (lexer : Lexer) : Lexer :=
  { lexer with src := lexer.src.tail, pos := lexer.pos + 1, col := lexer.col + 1 }

/-- Move over some bytes of one line. -/
def skip (lexer : Lexer) (count : Nat) : Lexer :=
  { lexer with src := lexer.src.drop count, pos := lexer.pos + count, col := lexer.col + count }

/-- A token of this kind at the position. -/
def token (start : Lexer) (kind : TokenKind) : Token := ⟨kind, start.pos, start.line, start.col⟩

/-- An error at the position. -/
def error (start : Lexer) (message : String) : Stop LexError :=
  .fail ⟨message, start.pos, start.line, start.col⟩

/-- The whitespace loop of `skip_ws_and_comments`. -/
def skipSpaces : List UInt8 → Nat → Nat → Nat → Lexer
  | [], pos, line, col => ⟨[], pos, line, col⟩
  | c :: rest, pos, line, col =>
    if c == byte ' ' || c == byte '\t' || c == byte '\r' then
      skipSpaces rest (pos + 1) line (col + 1)
    else if c == byte '\n' then skipSpaces rest (pos + 1) (line + 1) 1
    else ⟨c :: rest, pos, line, col⟩

end Lexer

/-- Go on by a byte. -/
def advance : LexM Unit := modify Lexer.step

/-- Go on by some bytes. -/
def advanceBy (count : Nat) : LexM Unit := modify (·.skip count)

/-- The next byte, if there is one. -/
def peek : LexM (Option UInt8) := return (← get).src.head?

/-- A byte further on, if there is one. -/
def peekAt (offset : Nat) : LexM (Option UInt8) := return (← get).src[offset]?

/-- Skip whitespace and comments; a comment runs from a semicolon to the end of its line. -/
def skipWsAndCommentsLoop : Nat → LexM Unit
  | 0 => throw .fuel
  | fuel + 1 => do
    modify fun lexer => Lexer.skipSpaces lexer.src lexer.pos lexer.line lexer.col
    if (← peek) == some (byte ';') then
      advanceBy ((← get).src.takeWhile (· != byte '\n')).length
      skipWsAndCommentsLoop fuel

/-- Skip whitespace and comments. -/
def skipWsAndComments : LexM Unit := do skipWsAndCommentsLoop ((← get).src.length + 1)

/-- Read the UTF-8 sequence that the next byte starts. -/
def readUtf8Char : LexM Char := do
  let start ← get
  match start.src with
  | [] => throw .panic
  | lead :: _ =>
    match Utf8.width? lead with
    | none => throw (start.error "invalid UTF-8")
    | some width =>
      if start.src.length < width then throw (start.error "truncated UTF-8")
      else
        match Utf8.decode? (start.src.take width) with
        | none => throw (start.error "invalid UTF-8")
        | some ch =>
          advanceBy width
          return ch

/-- Read the next byte, `c`, as a character: itself if it is ASCII, else the whole sequence. -/
def readChar (c : UInt8) : LexM Char := do
  if 0x80 ≤ c then readUtf8Char
  else
    advance
    return latin1 c

/-! ### Words -/

/-- Read characters while their bytes are accepted. -/
def lexWordLoop (accepts : UInt8 → Bool) : Nat → List Char → LexM (List Char)
  | 0, _ => throw .fuel
  | fuel + 1, buf => do
    match ← peek with
    | none => return buf
    | some c =>
      if accepts c then
        let ch ← readChar c
        lexWordLoop accepts fuel (buf ++ [ch])
      else return buf

/-- Read the longest word of accepted characters, which may be empty. -/
def lexWord (accepts : UInt8 → Bool) : LexM (List Char) := do
  lexWordLoop accepts ((← get).src.length + 1) []

/-- A sigil and a word after it: the shape of variables, keywords and entities. -/
def lexSigil (accepts : UInt8 → Bool) (kind : String → TokenKind) (message : String)
    (start : Lexer) : LexM Token := do
  advance
  let buf ← lexWord accepts
  if buf.isEmpty then throw (start.error message)
  return start.token (kind (String.ofList buf))

/-- Lex a variable. -/
def lexVar (start : Lexer) : LexM Token :=
  lexSigil isNameByte .var "variable name expected after ?" start

/-- Lex a keyword. -/
def lexKeyword (start : Lexer) : LexM Token :=
  lexSigil isNameByte .keyword "keyword name expected after :" start

/-- Lex an entity. -/
def lexEntity (start : Lexer) : LexM Token :=
  lexSigil isEntityByte .entity "entity name expected after @" start

/-- Lex a symbol. -/
def lexSymbol (start : Lexer) : LexM Token := do
  let buf ← lexWord isSymbolByte
  if buf.isEmpty then
    let shown := ((← peek).map latin1).getD ' '
    throw (start.error ("unexpected character: '" ++ String.singleton shown ++ "'"))
  return start.token (.symbol (String.ofList buf))

/-! ### Quoted forms -/

/-- The character an escape stands for, by the byte after the backslash. -/
def unescape (c : UInt8) : Char :=
  if c == byte 'n' then '\n'
  else if c == byte 't' then '\t'
  else if c == byte 'r' then '\r'
  else latin1 c

/-- The body of a string literal, up to its closing quote. -/
def lexStringLoop (start : Lexer) : Nat → List Char → LexM (List Char)
  | 0, _ => throw .fuel
  | fuel + 1, buf => do
    match ← peek with
    | none =>
      throw (start.error "UnterminatedString: string literal without closing quote")
    | some c =>
      if c == byte '"' then
        advance
        return buf
      else if c == byte '\\' then
        advance
        match ← peek with
        | some escaped =>
          advance
          lexStringLoop start fuel (buf ++ [unescape escaped])
        | none => throw ((← get).error "unterminated string escape")
      else
        let ch ← readChar c
        lexStringLoop start fuel (buf ++ [ch])

/-- Lex a string. -/
def lexString (start : Lexer) : LexM Token := do
  advance
  let buf ← lexStringLoop start ((← get).src.length + 1) []
  return start.token (.str (String.ofList buf))

/-- The body of a URI, up to its closing bracket. -/
def lexUriLoop (start : Lexer) : Nat → List Char → LexM (List Char)
  | 0, _ => throw .fuel
  | fuel + 1, buf => do
    match ← peek with
    | none => throw (start.error "unterminated URI")
    | some c =>
      if c == byte '>' then
        advance
        return buf
      else
        let ch ← readChar c
        lexUriLoop start fuel (buf ++ [ch])

/-- Lex a URI. -/
def lexUri (start : Lexer) : LexM Token := do
  advance
  let buf ← lexUriLoop start ((← get).src.length + 1) []
  return start.token (.uri (String.ofList buf))

/-- The expected bytes, one after the other. -/
def expectBytes (start : Lexer) (message : String) : List UInt8 → LexM Unit
  | [] => return
  | expected :: rest => do
    if (← peek) != some expected then throw (start.error message)
    advance
    expectBytes start message rest

/-- The rest of `#date(...)` or `#dur(...)` after its first letter, up to the closing
parenthesis or the end of the source. The bytes are taken as characters one by one. -/
def lexHashForm (start : Lexer) (letters : List UInt8) (expected afterHash : String)
    (kind : String → TokenKind) : LexM Token := do
  advance
  expectBytes start expected letters
  if (← peek) != some (byte '(') then throw (start.error afterHash)
  advance
  let content := (← get).src.takeWhile (· != byte ')')
  advanceBy content.length
  if (← peek) == some (byte ')') then advance
  return start.token (kind (String.ofList (content.map latin1)))

/-- Lex a literal that starts with a hash. -/
def lexHashPrefixed (start : Lexer) : LexM Token := do
  advance
  let first ← peek
  let second ← peekAt 1
  if first == some (byte 't') then
    advance
    return start.token (.bool true)
  else if first == some (byte 'f') then
    advance
    return start.token (.bool false)
  else if first == some (byte 'd') && second == some (byte 'a') then
    lexHashForm start [byte 'a', byte 't', byte 'e'] "expected 'date'"
      "expected '(' after #date" .date
  else if first == some (byte 'd') && second == some (byte 'u') then
    lexHashForm start [byte 'u', byte 'r'] "expected 'dur'" "expected '(' after #dur" .duration
  else throw (start.error "unknown # prefix (expected #t, #f, #date, #dur)")

/-! ### Numbers -/

/-- Read the longest run of digits. -/
def lexDigits : LexM (List Char) := do
  let digits := (← get).src.takeWhile isAsciiDigit
  advanceBy digits.length
  return digits.map latin1

/-- An optional minus sign. -/
def lexSign : LexM (List Char) := do
  if (← peek) == some (byte '-') then
    advance
    return ['-']
  else return []

/-- An optional point with the digits after it. -/
def lexFraction : LexM (List Char) := do
  if (← peek) == some (byte '.') then
    advance
    let digits ← lexDigits
    return '.' :: digits
  else return []

/-- An optional minus sign, digits, and an optional point with digits after it. A second
point with a digit after it is an error that suggests string quotes. -/
def lexNumber (start : Lexer) : LexM Token := do
  let sign ← lexSign
  let whole ← lexDigits
  let fraction ← lexFraction
  let buf := String.ofList (sign ++ whole ++ fraction)
  if (← peek) == some (byte '.') && ((← peekAt 1).map isAsciiDigit).getD false then
    throw (start.error ("multi-dot number '" ++ buf ++
      "'... — use string quotes for version numbers, IP addresses, etc. (e.g., \"" ++ buf ++
      "...\")"))
  return start.token (.number buf)

/-! ### Tokens and token lists -/

/-- Lex the next token. -/
def nextToken : LexM Token := do
  let start ← get
  match start.src with
  | [] => throw .panic
  | c :: rest =>
    if c == byte '(' then advance; return start.token .lParen
    else if c == byte ')' then advance; return start.token .rParen
    else if c == byte '[' then advance; return start.token .lBracket
    else if c == byte ']' then advance; return start.token .rBracket
    else if c == byte '"' then lexString start
    else if c == byte '?' then lexVar start
    else if c == byte ':' then lexKeyword start
    else if c == byte '<' then lexUri start
    else if c == byte '@' then lexEntity start
    else if c == byte '#' then lexHashPrefixed start
    else if isAsciiDigit c || (c == byte '-' && (rest.head?.map isAsciiDigit).getD false) then
      lexNumber start
    else lexSymbol start

/-- The loop of `tokenize`, with the tokens read so far and the most it may read. -/
def tokenizeLoop (limit : Nat) : Nat → List Token → LexM (List Token)
  | 0, _ => throw .fuel
  | fuel + 1, tokens => do
    skipWsAndComments
    let here ← get
    if here.src.isEmpty then return tokens ++ [here.token .eof]
    if limit ≤ tokens.length then
      throw (here.error "input exceeds maximum token count (1000000)")
    let tok ← nextToken
    tokenizeLoop limit fuel (tokens ++ [tok])

/-- Tokenize the entire source string. -/
def tokenize (src : String) : Except (Stop LexError) (List Token) :=
  let lexer := Lexer.new src
  match tokenizeLoop maxTokens (lexer.src.length + 1) [] lexer with
  | .ok tokens _ => .ok tokens
  | .error stop _ => .error stop

end Factum
