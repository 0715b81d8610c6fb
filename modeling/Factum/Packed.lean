/-
This file is about the terms of the packed codec.

A term is written as a text and a code for its kind, and read back from them. A compound is
written by its canonical text, parentheses included, and read by the parser for nodes from
that text between two more parentheses. To that parser the text is no node but a form to be
skipped, so no compound is ever read back. Every other term is, but for one decimal whose
mantissa has no absolute value in its own type.
-/

import Factum.Decimals
import Factum.Nested

namespace Factum

open Stateful Lexer

/-- The errors of the codec that the model reaches. -/
inductive LatentError where
  | decodeError (message : String)
deriving DecidableEq, Repr

/-! ### Writing and reading terms -/

section Codec

variable {F : Type} (host : Host F)

mutual

/-- The text of a term, and the code of its kind. -/
def termValueString : Term → String × UInt8
  | .ent entity => (entity.asStr, 1)
  | .var name => (name, 2)
  | .lit literal =>
    match literal with
    | .dec _ _ => (String.ofList (literal.toCanonicalString host), 3)
    | .str text => (text, 4)
    | .date d => (host.dateFormat d, 5)
    | .bool b => (if b then "1" else "0", 6)
    | .uri text => (text, 7)
    | .dur d => (String.ofList (decimal d.asNanos), 8)
  | .compound pred => (canonicalPredicate host pred, 9)
  | .list items => (String.intercalate " " (valueStrings items), 10)

/-- The texts of terms, without the codes of their kinds. -/
def valueStrings : List Term → List String
  | [] => []
  | term :: rest => (termValueString term).1 :: valueStrings rest

end

/-- `s.split_whitespace()`. -/
def splitWhitespace (text : List Char) : List (List Char) :=
  (text.splitOnP isWhitespace).filter fun part => !part.isEmpty

/-- An item of a list: an entity where it starts with a capital letter. -/
def reconstructItem (part : List Char) : Term :=
  if (part.head?.map Char.isUpper).getD false then .ent ⟨String.ofList part⟩
  else .lit (.str (String.ofList part))

/-- A failure to decode. -/
def decodeError {α : Type} (message : String) : Except (Stop LatentError) α :=
  .error (.fail (.decodeError message))

variable [F32 F]

/-- The compound that a text is read as: the predicate of the first node of the text between
parentheses. -/
def reconstructCompound (s : String) : Except (Stop LatentError) Term :=
  match Parser.parse host ("(" ++ s ++ ")") with
  | .error (.fail error) => decodeError ("compound parse: " ++ error.display)
  | .error .panic => .error .panic
  | .error .fuel => .error .fuel
  | .ok [] => decodeError "compound parse empty"
  | .ok (node :: _) => .ok (.compound node.predicate)

/-- The term of a text and a code. -/
def reconstructTerm (s : String) (typeCode : UInt8) : Except (Stop LatentError) Term :=
  match typeCode.toNat with
  | 1 => .ok (.ent ⟨s⟩)
  | 2 => .ok (.var s)
  | 3 =>
    match Literal.decFromStr s with
    | .ok literal => .ok (.lit literal)
    | .error error =>
      decodeError ("dec parse '" ++ s ++ "': " ++ CoreError.display host error)
  | 4 => .ok (.lit (.str s))
  | 5 =>
    match host.dateFromStr s with
    | .ok d => .ok (.lit (.date d))
    | .error error => decodeError ("date parse '" ++ s ++ "': " ++ error)
  | 6 => .ok (.lit (.bool (s == "1" || s.toList.map Char.toLower == "true".toList)))
  | 7 => .ok (.lit (.uri s))
  | 8 =>
    match parseUnsigned (2 ^ 128) s.toList with
    | .ok nanos => .ok (.lit (.dur (.fromNanos (UInt64.ofNat nanos))))
    | .error error => decodeError ("dur parse '" ++ s ++ "': " ++ error)
  | 9 => reconstructCompound host s
  | 10 => .ok (.list ((splitWhitespace s.toList).map reconstructItem))
  | _ => decodeError ("unknown type code: " ++ toString typeCode)

/-- A term that is written and read. -/
def recoded (term : Term) : Except (Stop LatentError) Term :=
  reconstructTerm host (termValueString host term).1 (termValueString host term).2

end Codec

/-! ### Compounds -/

section Compounds

variable {F : Type} [F32 F] {host : Host F}

/-- At the end of the input there are no more nodes. -/
theorem Parser.eq_nil_of_tops_eof {rest : List TokenKind} {nodes : List (Node F)}
    (tops : Tops host (.eof :: rest) nodes) : nodes = [] := by
  generalize isKinds : TokenKind.eof :: rest = kinds at tops
  cases tops with
  | eof => rfl
  | node => cases (List.cons.inj isKinds).1
  | skipped => cases (List.cons.inj isKinds).1
  | stray notEof => exact absurd (List.cons.inj isKinds).1.symm notEof

/-- The text of a predicate between parentheses is no node. -/
theorem Parser.eq_nil_of_tops {pred : Predicate} {nodes : List (Node F)}
    (tops : Tops host (.lParen :: (pred.readTokens host ++ [.rParen, .eof])) nodes) :
    nodes = [] := by
  have notNode : ¬ IsNodeForm (.lParen :: (pred.readTokens host ++ [.rParen, .eof])) := by
    obtain ⟨head, args, named⟩ := pred
    rw [IsNodeForm, Predicate.readTokens]
    simp
  generalize isKinds :
    TokenKind.lParen :: (pred.readTokens host ++ [.rParen, .eof]) = kinds at tops notNode
  cases tops with
  | eof => cases (List.cons.inj isKinds).1
  | node _ isNode => exact absurd isNode notNode
  | skipped _ tops =>
    rw [← (List.cons.inj isKinds).2, afterSkip_form (nested_predicate host pred)] at tops
    exact eq_nil_of_tops_eof tops
  | stray _ notOpen => exact absurd (List.cons.inj isKinds).1.symm notOpen

/-- No predicate of words is read back from its text between parentheses. -/
theorem reconstructCompound_ne (lawful : host.Lawful) {pred : Predicate}
    (spelled : pred.Meets .spelled) (term : Term) :
    reconstructCompound host (canonicalPredicate host pred) ≠ .ok term := by
  have isText : "(" ++ canonicalPredicate host pred ++ ")" =
      String.ofList ('(' :: (canonicalPredicateInner host pred ++ [')'])) := by
    rw [← String.toList_inj, String.toList_append, String.toList_append, String.toList_ofList,
      canonicalPredicate, String.toList_ofList, String.toList_ofList, String.toList_ofList]
    rfl
  have tries := (tries_predicate lawful pred spelled).between readsToken_lParen rfl
    readsToken_rParen rfl (delimiting_paren [])
  intro read
  rw [reconstructCompound, isText] at read
  cases parsed : Parser.parse host
      (String.ofList ('(' :: (canonicalPredicateInner host pred ++ [')']))) with
  | error stop =>
    rw [parsed] at read
    cases stop <;> cases read
  | ok nodes =>
    rw [parsed] at read
    unfold Parser.parse at parsed
    cases isTokens : Parser.tokensOf
        (String.ofList ('(' :: (canonicalPredicateInner host pred ++ [')']))) with
    | error stop =>
      rw [isTokens] at parsed
      cases parsed
    | ok tokens =>
      rw [isTokens] at parsed
      obtain ⟨after, ran⟩ := answer_eq_ok.mp parsed
      obtain ⟨own, last, rfl, areKinds, isEof⟩ := Parser.tokensOf_of_tries tries isTokens
      obtain ⟨more, rfl, tops⟩ := Parser.tops_of_parseTop _ [] rfl ran
      have isKinds : Parser.kinds ⟨own ++ [last], 0⟩ =
          .lParen :: (pred.readTokens host ++ [.rParen, .eof]) := by
        rw [Parser.kinds, List.map_append, areKinds, List.map_singleton, isEof]
        simp
      rw [isKinds] at tops
      rw [Parser.eq_nil_of_tops tops] at read
      cases read

end Compounds

/-! ### The round trip -/

/-- A term that the codec is asked to carry: an entity, a variable, a literal, whose nanoseconds
are 64-bit if it is a duration, or a compound over words that the lexer reads as they are. -/
def Term.Packable : Term → Prop
  | .lit (.dur d) => d.asNanos < 2 ^ 64
  | .compound pred => pred.Meets .spelled
  | .list _ => False
  | _ => True

/-- A term that is no compound, and no decimal with the least mantissa. -/
def Term.Returns : Term → Prop
  | .compound _ => False
  | .lit (.dec mantissa _) => -2 ^ 127 < mantissa.val
  | _ => True

section RoundTrip

variable {F : Type} [F32 F] {host : Host F}

theorem natAbs_le_i128Max_iff (mantissa : I128) :
    mantissa.val.natAbs ≤ i128Max ↔ -2 ^ 127 < mantissa.val := by
  obtain ⟨least, most⟩ := mantissa.property
  rw [i128Max]
  omega

/-- The only decimal that is not read back is the one whose mantissa is least. -/
theorem recoded_dec_iff (mantissa : I128) (scale : UInt8) :
    recoded host (.lit (.dec mantissa scale)) = .ok (.lit (.dec mantissa scale)) ↔
      -2 ^ 127 < mantissa.val := by
  have isText : String.ofList ((Literal.dec mantissa scale).toCanonicalString host) =
      decToString mantissa scale := String.ofList_toList
  simp only [recoded, termValueString, reconstructTerm, UInt8.reduceToNat]
  rw [isText, ← natAbs_le_i128Max_iff, ← decFromStr_decToString_iff (F := F)]
  cases (Literal.decFromStr (decToString mantissa scale) : Except (CoreError F) Literal) with
  | ok literal => simp
  | error error => exact iff_of_false nofun nofun

theorem recoded_bool (b : Bool) : recoded host (.lit (.bool b)) = .ok (.lit (.bool b)) := by
  have isOne : ("1" == "1" || "1".toList.map Char.toLower == "true".toList) = true := by decide
  have isZero : ("0" == "1" || "0".toList.map Char.toLower == "true".toList) = false := by decide
  cases b with
  | false =>
    simp only [recoded, termValueString, reconstructTerm, UInt8.reduceToNat]
    exact congrArg (fun b => Except.ok (Term.lit (.bool b))) isZero
  | true =>
    simp only [recoded, termValueString, reconstructTerm, UInt8.reduceToNat]
    exact congrArg (fun b => Except.ok (Term.lit (.bool b))) isOne

/-- A duration is read from the number its text spells. -/
theorem reconstructTerm_dur {s : String} {nanos : Nat}
    (isNanos : parseUnsigned (2 ^ 128) s.toList = .ok nanos) :
    reconstructTerm host s 8 = .ok (.lit (.dur (.fromNanos (UInt64.ofNat nanos)))) := by
  have dispatched : reconstructTerm host s 8 =
      match parseUnsigned (2 ^ 128) s.toList with
      | .ok nanos => .ok (.lit (.dur (.fromNanos (UInt64.ofNat nanos))))
      | .error error => decodeError ("dur parse '" ++ s ++ "': " ++ error) := rfl
  rw [dispatched, isNanos]

theorem recoded_dur {d : Duration} (fits : d.asNanos < 2 ^ 64) :
    recoded host (.lit (.dur d)) = .ok (.lit (.dur d)) := by
  have small : d.asNanos < 2 ^ 128 := lt_of_lt_of_le fits (Nat.pow_le_pow_right two_pos (by decide))
  have isNanos : parseUnsigned (2 ^ 128) (String.ofList (decimal d.asNanos)).toList =
      .ok d.asNanos := by
    rw [String.toList_ofList]
    exact parseUnsigned_decimal small
  have read : reconstructTerm host (String.ofList (decimal d.asNanos)) 8 = _ :=
    reconstructTerm_dur isNanos
  rw [Duration.fromNanos_asNanos fits] at read
  exact read

theorem recoded_date (lawful : host.Lawful) (d : NaiveDate) :
    recoded host (.lit (.date d)) = .ok (.lit (.date d)) := by
  simp only [recoded, termValueString, reconstructTerm, UInt8.reduceToNat]
  rw [lawful.date_inverse]

/-- A term comes back from its text and code exactly if it is no compound, and no decimal with
the least mantissa. -/
theorem recoded_iff (lawful : host.Lawful) (term : Term) (packable : term.Packable) :
    recoded host term = .ok term ↔ term.Returns := by
  cases term with
  | var name => exact iff_of_true rfl trivial
  | ent entity => exact iff_of_true rfl trivial
  | compound pred => exact iff_of_false (reconstructCompound_ne lawful packable _) id
  | list items => exact packable.elim
  | lit literal =>
    cases literal with
    | dec mantissa scale => exact recoded_dec_iff mantissa scale
    | str text => exact iff_of_true rfl trivial
    | uri text => exact iff_of_true rfl trivial
    | bool b => exact iff_of_true (recoded_bool b) trivial
    | date d => exact iff_of_true (recoded_date lawful d) trivial
    | dur d => exact iff_of_true (recoded_dur packable) trivial

end RoundTrip

namespace Tenths

/-- A place, as a compound. -/
def place : Term := .compound ⟨.name "located-in", [.ent ⟨"ACME"⟩, .ent ⟨"Oslo"⟩], []⟩

theorem place_packable : place.Packable := by
  simp only [place, Term.Packable, Predicate.Meets, Term.AllMeet, Term.AllMeetNamed, Term.Meets,
    Asks.spelled, Asks.parsed, Asks.lexical, PredicateHead.IsName]
  decide

/-- The text of a place is written, but no node is read from it. -/
theorem place_not_recoded :
    termValueString host place = ("(located-in @ACME @Oslo)", 9) ∧
      recoded host place = decodeError "compound parse empty" ∧
      ¬ ∀ term : Term, term.Packable → recoded host term = .ok term := by
  have isText : termValueString host place = ("(located-in @ACME @Oslo)", 9) := by decide +kernel
  have isEmpty : recoded host place = decodeError "compound parse empty" := by
    rw [recoded, isText]
    decide +kernel
  refine ⟨isText, isEmpty, fun recodes => ?_⟩
  rw [recodes place place_packable] at isEmpty
  cases isEmpty

theorem place_lost : ¬ recoded host place = .ok place := fun same =>
  (recoded_iff host_lawful place place_packable).mp same

end Tenths

end Factum
