/-
This file proves that a node is read back from its canonical text.

The text of a printable node is tokenized to the tokens of the node, unless they are too
many, and the parser reads these tokens as the node.
-/

import Mathlib.Logic.Equiv.Nat
import Mathlib.Data.Nat.Pairing
import Mathlib.Data.List.FinRange
import Factum.Reread

namespace Factum

open Stateful Lexer

/-! ### The tokens of a text -/

/-- The number of tokens in a source, when all of it can be read. A token has a byte of its
own, so that a limit of as many tokens as there are bytes is none. -/
def tokenCount (src : String) : Option Nat :=
  let lexer := Lexer.new src
  match tokenizeLoop lexer.src.length (lexer.src.length + 1) [] lexer with
  | .ok tokens _ => some (tokens.length - 1)
  | .error _ _ => none

theorem new_at (text : List Char) : (Lexer.new (String.ofList text)).At text := by
  rw [At, Lexer.new, String.toList_ofList]

/-- A text that is one piece has as many tokens as the piece. -/
theorem tokenCount_of_piece {text : List Char} {kinds : List TokenKind}
    (piece : Piece text kinds) : tokenCount (String.ofList text) = some kinds.length := by
  have here := new_at text
  obtain ⟨_, _, scans⟩ := piece.reads [] delimited_nil _ (by rwa [List.append_nil])
  obtain ⟨tokens, eof, after, ran, areKinds, _⟩ := tokenizeLoop_of_piece piece scans.length_le here
  unfold tokenCount
  simp only [ran]
  rw [List.length_append, List.length_singleton, Nat.add_sub_cancel, ← areKinds, List.length_map]

namespace Parser

/-- A text that is one piece is read as the tokens of the piece, unless they are too many. -/
theorem tokensOf_of_piece {text : List Char} {kinds : List TokenKind} (piece : Piece text kinds)
    (few : kinds.length < maxTokens) : ∃ tokens eof,
      tokensOf (String.ofList text) = .ok (tokens ++ [eof]) ∧ tokens.map (·.kind) = kinds ∧
        eof.kind = .eof := by
  obtain ⟨tokens, eof, after, ran, areKinds, isEof⟩ :=
    tokenizeLoop_of_piece piece few.le (new_at text)
  refine ⟨tokens, eof, ?_, areKinds, isEof⟩
  have length : ¬ maxTokens < (tokens ++ [eof]).length := by
    have count := congrArg List.length areKinds
    rw [List.length_map] at count
    rw [List.length_append, List.length_singleton]
    omega
  unfold tokensOf tokenize
  simp only [ran]
  rw [if_neg length]

variable {F : Type} [F32 F] {host : Host F}

/-- The kind of the second token decides what is done. -/
theorem takes_peekKindAt_bind {α : Type} {follows : TokenKind → Prop} {depth : Nat}
    {next : Option TokenKind → ParserM α} {kind kind' : TokenKind} {kinds : List TokenKind}
    {result : α} (takes : Takes follows (next (some kind')) depth (kind :: kind' :: kinds) result) :
    Takes follows (peekKindAt 1 >>= next) depth (kind :: kind' :: kinds) result := by
  refine ⟨fun tokens tok rest areKinds follow => ?_⟩
  have ran := takes.run tokens tok rest areKinds follow
  obtain ⟨first, others, rfl, rfl, areOthers⟩ := List.map_eq_cons_iff.mp areKinds
  obtain ⟨second, others, rfl, rfl, -⟩ := List.map_eq_cons_iff.mp areOthers
  exact ran

/-- At the top, the tokens of a node are read as the node. -/
theorem takes_parseTop (lawful : host.Lawful) {node : Node F} (printable : node.Printable)
    (fuel : Nat) :
    Takes (· = .eof) (parseTop host (fuel + 2) []) 0 (node.tokens host) [node] := by
  have ends : Takes (· = .eof) (parseTop host (fuel + 1) [node]) 0 [] [node] := by
    rw [parseTop]
    refine takes_peek_bind_nil ?_
    rintro kind rfl
    exact takes_pure _
  have whole : Takes (· = .eof)
      (parseNode host >>= fun node => parseTop host (fuel + 1) ([] ++ [node])) 0
      (node.tokens host ++ []) [node] :=
    (takes_parseNode lawful printable).bind ends
  rw [List.append_nil] at whole
  have starts : ∃ kinds, node.tokens host = .lParen :: .symbol "node" :: kinds := ⟨_, rfl⟩
  obtain ⟨kinds, isTokens⟩ := starts
  rw [isTokens] at whole ⊢
  rw [parseTop]
  refine takes_peek_bind (takes_peekKindAt_bind ?_)
  rw [if_pos rfl]
  exact whole

/-- A printable node is read back from its canonical text. -/
theorem parse_canonical (lawful : host.Lawful) {node : Node F} (printable : node.Printable)
    (few : ∀ count, tokenCount (canonical host node) = some count → count < maxTokens) :
    parse host (canonical host node) = .ok [node] := by
  have piece := piece_node lawful printable
  obtain ⟨tokens, eof, read, areKinds, isEof⟩ :=
    tokensOf_of_piece piece (few _ (tokenCount_of_piece piece))
  have ran := (takes_parseTop lawful printable tokens.length).run tokens eof [] areKinds isEof
  have fuel : (tokens ++ [eof]).length + 1 = tokens.length + 2 := by
    rw [List.length_append, List.length_singleton]
  unfold parse
  rw [canonical, read]
  show answer (parseTop host ((tokens ++ [eof]).length + 1) []) ⟨tokens ++ [eof], 0⟩ = _
  rw [fuel, answer_ok ran]

end Parser

/-! ### Scores in tenths -/

/-- The scores 0, 0.1, …, 1. -/
structure Tenths where
  count : Fin 11
deriving DecidableEq

namespace Tenths

instance : F32 Tenths where
  lit m k := ⟨Fin.ofNat 11 (m * 10 / 10 ^ k)⟩
  le a b := decide (a.count ≤ b.count)
  lt a b := decide (a.count < b.count)
  eq a b := decide (a = b)
  add a b := ⟨a.count + b.count⟩
  sub a b := ⟨a.count - b.count⟩
  mul a b := ⟨Fin.ofNat 11 (a.count.val * b.count.val / 10)⟩
  max a b := ⟨Max.max a.count b.count⟩
  abs a := a

/-- So many tenths. -/
def ofNat (count : Nat) : Tenths := ⟨Fin.ofNat 11 count⟩

/-- The digits before and after the point. -/
def digits (v : Tenths) : List Char × List Char :=
  if v.count = 0 then (['0'], [])
  else if v.count = 10 then (['1'], [])
  else (['0'], [Nat.digitChar v.count.val])

/-- The text of a number of tenths. -/
def display (v : Tenths) : String := String.ofList (v.digits.1 ++ pointed v.digits.2)

/-- The number of tenths that a text shows. -/
def fromStr (text : String) : Except String Tenths :=
  if text = "0.0" then .ok ⟨0⟩
  else if text = "1.0" then .ok ⟨10⟩
  else
    match (List.finRange 11).find? fun count => (display ⟨count⟩ = text : Bool) with
    | some count => .ok ⟨count⟩
    | none => .error "invalid float literal"

/-- The number that a text of digits denotes. -/
def ofDigits (text : String) : Nat := Nat.ofDigitChars 10 text.toList 0

/-- A host for scores in tenths. A date is printed as the number of its day, and an instant
as the number of its pair of seconds and nanoseconds. -/
def host : Host Tenths where
  f32Display := display
  f32FromStr := fromStr
  dateFormat d := (Equiv.intEquivNat d.daysFromEpoch).repr
  dateFromStr text :=
    match NaiveDate.ofDays (Equiv.intEquivNat.symm (ofDigits text)) with
    | some d => .ok d
    | none => .error "input is out of range"
  toRfc3339 t := (Nat.pair (Equiv.intEquivNat t.timestamp) t.subsecNanos).repr
  datetimeFromStr text :=
    match DateTime.ofTimestamp (Equiv.intEquivNat.symm (ofDigits text).unpair.1)
        (ofDigits text).unpair.2 with
    | some t => .ok t
    | none => .error "input is out of range"
  strDebug text := "\"" ++ text ++ "\""

theorem ofDigits_repr (n : Nat) : ofDigits n.repr = n := by
  rw [ofDigits, Nat.toList_repr, Nat.ofDigitChars_ten_toDigits]

theorem isDigit_of_mem_repr {n : Nat} {c : Char} (member : c ∈ n.repr.toList) :
    c.isDigit = true := by
  rw [Nat.toList_repr] at member
  exact Nat.isDigit_of_mem_toDigits (by decide) (by decide) member

theorem digits_plain : ∀ count : Fin 11, (digits ⟨count⟩).1 ≠ [] ∧
    (digits ⟨count⟩).1.all Char.isDigit = true ∧ (digits ⟨count⟩).2.all Char.isDigit = true := by
  decide

theorem fromStr_display : ∀ count : Fin 11, fromStr (display ⟨count⟩) = .ok ⟨count⟩ := by
  decide +kernel

/-- Only two of the printed scores have no point. -/
theorem display_whole : ∀ count : Fin 11, '.' ∉ (display ⟨count⟩).toList →
    fromStr (display ⟨count⟩ ++ ".0") = .ok ⟨count⟩ := by
  decide +kernel

theorem host_lawful : host.Lawful where
  f32_plain v _ := by
    obtain ⟨nonempty, wholeDigits, fractionDigits⟩ := digits_plain v.count
    refine ⟨[], v.digits.1, v.digits.2, .inl rfl, nonempty, wholeDigits, fractionDigits, ?_⟩
    show (display v).toList = _ ∧ _ ∨ (display v).toList = _ ∧ _
    rw [display, String.toList_ofList, List.nil_append]
    cases v.digits.2 with
    | nil => exact .inl ⟨by simp, rfl⟩
    | cons c rest => exact .inr ⟨rfl, List.cons_ne_nil _ _⟩
  f32_inverse v _ := fromStr_display v.count
  f32_pointZero text v _ noPoint read := by
    have read : fromStr text = .ok v := read
    show fromStr (text ++ ".0") = .ok v
    unfold fromStr at read
    split_ifs at read with isZero isOne
    · exact absurd (by rw [isZero]; decide) noPoint
    · exact absurd (by rw [isOne]; decide) noPoint
    · cases found : (List.finRange 11).find? fun count => (display ⟨count⟩ = text : Bool) with
      | none =>
        rw [found] at read
        cases read
      | some count =>
        rw [found] at read
        have isText : display ⟨count⟩ = text := by simpa using List.find?_some found
        rw [← Except.ok.inj read, ← isText]
        rw [← isText] at noPoint
        exact display_whole count noPoint
  default_inUnit := by decide
  date_numeral d c member := by
    rw [isNumeralChar, isDigit_of_mem_repr member]
    rfl
  date_inverse d := by
    simp only [host, ofDigits_repr, Equiv.symm_apply_apply, NaiveDate.ofDays_daysFromEpoch]
  datetime_plain t c member := by
    have digit := isDigit_of_mem_repr member
    constructor
    · rintro rfl
      cases digit
    · rintro rfl
      cases digit
  datetime_inverse t := by
    simp only [host, ofDigits_repr, Nat.unpair_pair, Equiv.symm_apply_apply,
      DateTime.ofTimestamp_timestamp]

/-- A node with a term of every kind. -/
def sample : Node Tenths where
  id := ⟨"n-1"⟩
  predicate := ⟨.name "rule", [.var "x", .list [.ent ⟨"a.b:c"⟩, .lit (.bool true)]],
    [("amount", .compound ⟨.name "is", [.lit (.dec ⟨-25, by decide⟩ 3), .lit (.uri "u:v")], []⟩),
      ("text", .lit (.str "say \"hi\"\n")), ("for", .lit (.dur ⟨90, ⟨5, by decide⟩⟩))]⟩
  validity := .forever
  provenance := .extracted ⟨"doc 1"⟩ ⟨0, 12⟩ ⟨"model", "v1"⟩
  confidence := ⟨⟨6⟩⟩
  authority := ⟨⟨10⟩⟩
  permissions := .restrictedTag
  deps := [⟨"n-0"⟩, ⟨"other"⟩]
  status := .active
  note := some "back\\slash"

theorem sample_printable : sample.Printable where
  active := rfl
  id := by decide
  predicate := by
    simp only [sample, Predicate.Meets, Term.AllMeet, Term.AllMeetNamed, Term.Meets, Asks.lexical,
      PredicateHead.IsName]
    decide
  nesting := by decide
  provenance := trivial
  confidence := by decide
  authority := by decide
  permissions := .inr (.inr (.inr rfl))
  deps := by decide
  plain :=
    { predicate := by
        simp only [sample, Predicate.Meets, Term.AllMeet, Term.AllMeetNamed, Term.Meets, Asks.plain]
        decide
      provenance := by
        show IsPlainText _ ∧ IsPlainText _ ∧ IsPlainText _
        decide }

theorem parse_canonical_sample : Parser.parse host (canonical host sample) = .ok [sample] :=
  Parser.parse_canonical host_lawful sample_printable fun count counted => by
    rw [canonical, tokenCount_of_piece (piece_node host_lawful sample_printable)] at counted
    rw [← Option.some.inj counted]
    decide

end Tenths

end Factum
