/-
This file proves that the canonical texts of different predicates differ.

The first characters of a term tell which kind of term it is, and its text can be told
from whatever may follow it: a word ends at a space or a bracket, a quoted text at its
quote, a bracketed form at its bracket. So the text of a predicate determines its head,
its arguments and their keys. Only the character classes that the lexer makes sure of are
used, not that the text can be read back, which fails for some words.
-/

import Factum.Parsed
import Factum.RoundTrip
import Factum.Library.Cancel

namespace Factum

open Lexer Cancel

/-- What the canonical texts of predicates rely on: dates print in their documented alphabet,
and different dates differently. -/
structure Host.TellsDates {F : Type} (host : Host F) : Prop where
  date_numeral : ∀ d, ∀ c ∈ (host.dateFormat d).toList, isNumeralChar c = true
  date_injective : Function.Injective host.dateFormat

theorem Host.Lawful.tellsDates {F : Type} [F32 F] {host : Host F} (lawful : host.Lawful) :
    host.TellsDates where
  date_numeral := lawful.date_numeral
  date_injective := by
    intro d d' same
    have read := lawful.date_inverse d
    rw [same, lawful.date_inverse d'] at read
    exact (Except.ok.inj read).symm

/-! ### Kinds of terms -/

/-- What the first characters of a text can announce. -/
inductive Opening where
  | var
  | entity
  | compound
  | list
  | str
  | uri
  | date
  | dur
  | bool
  | number
  | noTerm
deriving DecidableEq

/-- What the first characters of a text announce. -/
def opens : List Char → Opening
  | '?' :: _ => .var
  | '@' :: _ => .entity
  | '(' :: _ => .compound
  | '[' :: _ => .list
  | '"' :: _ => .str
  | '<' :: _ => .uri
  | '#' :: 'd' :: 'a' :: _ => .date
  | '#' :: 'd' :: 'u' :: _ => .dur
  | '#' :: _ => .bool
  | ':' :: _ => .noTerm
  | ']' :: _ => .noTerm
  | _ => .number

/-- The kind of a term. -/
def Term.opening : Term → Opening
  | .var _ => .var
  | .ent _ => .entity
  | .compound _ => .compound
  | .list _ => .list
  | .lit (.dec _ _) => .number
  | .lit (.str _) => .str
  | .lit (.date _) => .date
  | .lit (.dur _) => .dur
  | .lit (.bool _) => .bool
  | .lit (.uri _) => .uri

theorem opens_of_isNumeralChar {c : Char} (numeral : isNumeralChar c = true) (text : List Char) :
    opens (c :: text) = .number := by
  unfold opens
  split
  all_goals
    first
    | rfl
    | (rename_i same
       rw [(List.cons.inj same).1] at numeral
       cases numeral)

section Texts

variable {F : Type} (host : Host F)

/-- A decimal is printed in numeral characters, one at least. -/
theorem decToString_numeral (mantissa : I128) (scale : UInt8) :
    (decToString mantissa scale).toList ≠ [] ∧
      ∀ c ∈ (decToString mantissa scale).toList, isNumeralChar c = true := by
  obtain ⟨whole, fraction, shape, nonempty, wholeDigits, fractionDigits, _⟩ :=
    decToString_eq mantissa scale
  have digit : ∀ {c : Char}, c.isDigit = true → isNumeralChar c = true := by
    intro c isDigit
    simp [isNumeralChar, isDigit]
  rw [shape, String.toList_ofList]
  constructor
  · simp [nonempty]
  · intro c member
    rcases List.mem_append.mp member with inFront | inFraction
    · rcases List.mem_append.mp inFront with inSign | inWhole
      · unfold signOf at inSign
        split_ifs at inSign
        · rw [List.mem_singleton.mp inSign]
          rfl
        · cases inSign
      · exact digit (List.all_eq_true.mp wholeDigits c inWhole)
    · rcases mem_pointed inFraction with rfl | inDigits
      · rfl
      · exact digit (List.all_eq_true.mp fractionDigits c inDigits)

/-- The text of a term announces its kind, whatever follows. -/
theorem opens_canonicalTerm (term : Term) (rest : List Char) :
    opens (canonicalTerm host term ++ rest) = term.opening := by
  cases term with
  | var name => rfl
  | ent entity => rfl
  | compound pred =>
    obtain ⟨head, args, named⟩ := pred
    rfl
  | list items => rfl
  | lit literal =>
    cases literal with
    | dec mantissa scale =>
      obtain ⟨nonempty, numeral⟩ := decToString_numeral mantissa scale
      obtain ⟨c, text, isText⟩ := List.exists_cons_of_ne_nil nonempty
      rw [isText] at numeral
      show opens ((decToString mantissa scale).toList ++ rest) = .number
      rw [isText]
      exact opens_of_isNumeralChar (numeral c List.mem_cons_self) _
    | str text => rfl
    | date d => rfl
    | dur d => rfl
    | bool b => cases b <;> rfl
    | uri text => rfl

/-! ### Literals -/

/-- The characters that delimit a word. -/
def isDelimiter (c : Char) : Bool := c == ' ' || c == ')' || c == ']'

theorem Lexer.Delimited.stops {accepts : Char → Bool}
    (delimiters : ∀ c, isDelimiter c = true → accepts c = false) {rest : List Char}
    (delimited : Delimited rest) : Stops accepts rest := by
  intro c tail isRest
  apply delimiters
  rcases delimited c tail isRest with rfl | rfl | rfl <;> rfl

/-- A text that has none of the delimiters. -/
def Undelimited (text : String) : Prop := ∀ c ∈ text.toList, isDelimiter c = false

theorem Lexer.IsWord.undelimited {accepts : UInt8 → Bool} (space : accepts (byte ' ') = false)
    (paren : accepts (byte ')') = false) (bracket : accepts (byte ']') = false) {word : String}
    (isWord : IsWord accepts word) : Undelimited word := by
  intro c member
  have accepted := isWord.accepted c member
  by_contra delimiter
  simp only [isDelimiter, Bool.or_eq_true, beq_iff_eq, Bool.not_eq_false] at delimiter
  rcases delimiter with (rfl | rfl) | rfl
  · exact absurd (space.symm.trans accepted) (by decide)
  · exact absurd (paren.symm.trans accepted) (by decide)
  · exact absurd (bracket.symm.trans accepted) (by decide)

theorem Lexer.IsWord.undelimited_name {word : String} (isWord : IsWord isNameByte word) :
    Undelimited word := isWord.undelimited (by decide) (by decide) (by decide)

theorem Lexer.IsSymbol.undelimited {word : String} (isSymbol : IsSymbol word) : Undelimited word :=
  isSymbol.toIsWord.undelimited (by decide) (by decide) (by decide)

/-- A word is told from what delimits it. -/
theorem undelimited_cancel {word word' : String} (undelimited : Undelimited word)
    (undelimited' : Undelimited word') {rest rest' : List Char} (delimited : Delimited rest)
    (delimited' : Delimited rest') (same : word.toList ++ rest = word'.toList ++ rest') :
    word = word' ∧ rest = rest' := by
  have accepted : ∀ {word : String}, Undelimited word →
      ∀ c ∈ word.toList, (fun c => !isDelimiter c) c = true := by
    intro word undelimited c member
    simp only [undelimited c member, Bool.not_false]
  have delimiters : ∀ c, isDelimiter c = true → (fun c => !isDelimiter c) c = false := by
    intro c delimiter
    simp only [delimiter, Bool.not_true]
  obtain ⟨words, rests⟩ := word_cancel (accepted undelimited) (accepted undelimited')
    (delimited.stops delimiters) (delimited'.stops delimiters) same
  exact ⟨String.toList_injective words, rests⟩

/-- Texts between quotes are told from what follows them. -/
theorem stringBody_cancel {body body' text text' : List Char} (stands : StringBody body text)
    (stands' : StringBody body' text') {rest rest' : List Char}
    (same : body ++ '"' :: rest = body' ++ '"' :: rest') : text = text' ∧ rest = rest' := by
  induction stands generalizing body' text' with
  | nil =>
    cases stands' with
    | nil => exact ⟨rfl, (List.cons.inj same).2⟩
    | plain notQuote _ _ => exact absurd (List.cons.inj same).1.symm notQuote
    | escaped _ _ => exact absurd (List.cons.inj same).1 (by decide)
  | plain notQuote notBackslash _ inductionHypothesis =>
    cases stands' with
    | nil => exact absurd (List.cons.inj same).1 notQuote
    | plain _ _ stands' =>
      obtain ⟨rfl, later⟩ := List.cons.inj same
      obtain ⟨rfl, rests⟩ := inductionHypothesis stands' later
      exact ⟨rfl, rests⟩
    | escaped _ _ => exact absurd (List.cons.inj same).1 notBackslash
  | escaped _ _ inductionHypothesis =>
    cases stands' with
    | nil => exact absurd (List.cons.inj same).1 (by decide)
    | plain _ notBackslash _ => exact absurd (List.cons.inj same).1.symm notBackslash
    | escaped _ stands' =>
      obtain ⟨_, afterBackslash⟩ := List.cons.inj same
      obtain ⟨rfl, later⟩ := List.cons.inj afterBackslash
      obtain ⟨rfl, rests⟩ := inductionHypothesis stands' later
      exact ⟨rfl, rests⟩

theorem quoted_escape_cancel {text text' : String} {rest rest' : List Char}
    (same : quoted (escape text.toList) ++ rest = quoted (escape text'.toList) ++ rest') :
    text = text' ∧ rest = rest' := by
  have bodies : escape text.toList ++ '"' :: rest = escape text'.toList ++ '"' :: rest' := by
    simpa [quoted] using same
  obtain ⟨texts, rests⟩ :=
    stringBody_cancel (stringBody_escape text.toList) (stringBody_escape text'.toList) bodies
  exact ⟨String.toList_injective texts, rests⟩

/-- A decimal is determined by what it prints. -/
theorem decToString_injective {mantissa mantissa' : I128} {scale scale' : UInt8}
    (fits : mantissa.val.natAbs ≤ i128Max) (fits' : mantissa'.val.natAbs ≤ i128Max)
    (same : decToString mantissa scale = decToString mantissa' scale') :
    Literal.dec mantissa scale = .dec mantissa' scale' := by
  have read : (Literal.decFromStr (decToString mantissa scale) : Except (CoreError Unit) Literal) =
      .ok (.dec mantissa scale) := decFromStr_decToString scale fits
  rw [same, decFromStr_decToString scale' fits'] at read
  exact (Except.ok.inj read).symm

theorem decimal_injective : Function.Injective decimal := by
  intro n n' same
  have value : Nat.ofDigitChars 10 (decimal n) 0 = n := Nat.ofDigitChars_ten_toDigits
  rw [same] at value
  exact value.symm.trans Nat.ofDigitChars_ten_toDigits

theorem Duration.asNanos_injective : Function.Injective Duration.asNanos := by
  rintro ⟨secs, nanos⟩ ⟨secs', nanos'⟩ same
  simp only [Duration.asNanos] at same
  have below := nanos.isLt
  have below' := nanos'.isLt
  have sameSecs : secs = secs' := UInt64.toNat_inj.mp (by omega)
  have sameNanos : nanos = nanos' := Fin.ext (by omega)
  rw [sameSecs, sameNanos]

theorem canonicalLiteral_dur (d : Duration) (rest : List Char) :
    canonicalLiteral host (.dur d) ++ rest =
      "#dur(".toList ++ (durationText d ++ ')' :: rest) := by
  rw [canonicalLiteral, durationText, List.append_assoc, List.append_assoc, List.append_assoc]
  rfl

/-- A printed duration is told from what follows its bracket. -/
theorem duration_cancel {d d' : Duration} {rest rest' : List Char}
    (same : durationText d ++ ')' :: rest = durationText d' ++ ')' :: rest') :
    d = d' ∧ rest = rest' := by
  have inside : ∀ d, ')' ∉ durationText d := by
    intro d member
    rcases List.mem_append.mp member with inDigits | inUnit
    · cases List.all_eq_true.mp (all_isDigit_toDigits d.asNanos) _ inDigits
    · exact absurd inUnit (by decide)
  obtain ⟨texts, rests⟩ := closed_cancel (inside _) (inside _) same
  have nanos := decimal_injective (List.append_cancel_right texts)
  exact ⟨Duration.asNanos_injective nanos, rests⟩

variable {host} in
/-- The text of a literal is told from what delimits it. -/
theorem canonicalLiteral_cancel (dates : host.TellsDates) {literal literal' : Literal}
    (lexical : Asks.lexical.literal literal) (lexical' : Asks.lexical.literal literal')
    {rest rest' : List Char} (delimited : Delimited rest) (delimited' : Delimited rest')
    (same : canonicalLiteral host literal ++ rest = canonicalLiteral host literal' ++ rest') :
    literal = literal' ∧ rest = rest' := by
  have kinds : (Term.lit literal).opening = (Term.lit literal').opening := by
    rw [← opens_canonicalTerm host (.lit literal) rest,
      ← opens_canonicalTerm host (.lit literal') rest']
    exact congrArg opens same
  have noParen : ∀ {text : List Char}, (∀ c ∈ text, isNumeralChar c = true) → ')' ∉ text := by
    intro text numeral member
    cases numeral _ member
  cases literal <;> cases literal' <;> cases kinds
  case dec.dec mantissa scale mantissa' scale' =>
    have undelimited : ∀ mantissa scale, Undelimited (decToString mantissa scale) := by
      intro mantissa scale c member
      have numeral := (decToString_numeral mantissa scale).2 c member
      by_contra delimiter
      simp only [isDelimiter, Bool.or_eq_true, beq_iff_eq, Bool.not_eq_false] at delimiter
      rcases delimiter with (rfl | rfl) | rfl <;> cases numeral
    obtain ⟨texts, rests⟩ := undelimited_cancel (undelimited mantissa scale)
      (undelimited mantissa' scale') delimited delimited' same
    exact ⟨decToString_injective lexical lexical' texts, rests⟩
  case str.str text text' =>
    obtain ⟨rfl, rests⟩ := quoted_escape_cancel same
    exact ⟨rfl, rests⟩
  case date.date d d' =>
    have bodies : (host.dateFormat d).toList ++ ')' :: rest =
        (host.dateFormat d').toList ++ ')' :: rest' := by
      simpa [canonicalLiteral] using same
    obtain ⟨texts, rests⟩ := closed_cancel (noParen (dates.date_numeral d))
      (noParen (dates.date_numeral d')) bodies
    exact ⟨congrArg Literal.date (dates.date_injective (String.toList_injective texts)), rests⟩
  case dur.dur d d' =>
    rw [canonicalLiteral_dur, canonicalLiteral_dur] at same
    obtain ⟨rfl, rests⟩ := duration_cancel (List.append_cancel_left same)
    exact ⟨rfl, rests⟩
  case bool.bool b b' =>
    cases b <;> cases b' <;> simp_all [canonicalLiteral]
  case uri.uri text text' =>
    have bodies : text.toList ++ '>' :: rest = text'.toList ++ '>' :: rest' := by
      simpa [canonicalLiteral] using same
    obtain ⟨texts, rests⟩ := closed_cancel lexical lexical' bodies
    exact ⟨congrArg Literal.uri (String.toList_injective texts), rests⟩

/-! ### Terms and predicates -/

/-- What ends a row of terms: a closing bracket, or a space that no term comes after. -/
def Closes (rest : List Char) : Prop :=
  Delimited rest ∧ ∀ tail, rest = ' ' :: tail → opens tail = .noTerm

theorem closes_bracket (rest : List Char) : Closes (']' :: rest) := by
  refine ⟨?_, by rintro _ ⟨⟩⟩
  rintro c tail ⟨⟩
  exact Or.inr (Or.inr rfl)

theorem delimited_paren (rest : List Char) : Delimited (')' :: rest) := by
  rintro c tail ⟨⟩
  exact Or.inr (Or.inl rfl)

theorem delimited_space (rest : List Char) : Delimited (' ' :: rest) := by
  rintro c tail ⟨⟩
  exact Or.inl rfl

theorem closes_canonicalNamed (named : List (String × Term)) (rest : List Char) :
    Closes (canonicalNamed host named ++ ')' :: rest) := by
  cases named with
  | nil => exact ⟨delimited_paren rest, by rintro _ ⟨⟩⟩
  | cons entry named =>
    refine ⟨delimited_space _, ?_⟩
    rintro tail ⟨⟩
    rfl

theorem delimited_canonicalArgs (args : List Term) {rest : List Char} (delimited : Delimited rest) :
    Delimited (canonicalArgs host args ++ rest) := by
  cases args with
  | nil => exact delimited
  | cons term args => exact delimited_space _

/-- A text cannot both be a term and be something that no term starts like. -/
theorem Term.opening_ne (term : Term) : term.opening ≠ .noTerm := by
  cases term with
  | lit literal => cases literal <;> exact nofun
  | _ => exact nofun

theorem Closes.ne_canonicalArgs {rest : List Char} (closes : Closes rest) (term : Term)
    (args : List Term) (rest' : List Char) :
    rest ≠ canonicalArgs host (term :: args) ++ rest' := by
  intro same
  have announced := closes.2 (canonicalTerm host term ++ (canonicalArgs host args ++ rest'))
    (by simpa [canonicalArgs] using same)
  rw [opens_canonicalTerm] at announced
  exact term.opening_ne announced

theorem canonicalItems_ne (term : Term) (items : List Term) (rest rest' : List Char) :
    canonicalItems host (term :: items) ++ rest' ≠ ']' :: rest := by
  intro same
  have announced := opens_canonicalTerm host term (canonicalArgs host items ++ rest')
  rw [← List.append_assoc] at announced
  have bracket : opens (canonicalItems host (term :: items) ++ rest') = .noTerm := by
    rw [same]
    rfl
  exact term.opening_ne (announced.symm.trans bracket)

/-- The entity of a parsed term has none of the delimiters. -/
theorem undelimited_entity {entity : EntityId}
    (parsed : IsWord isEntityByte entity.asStr ∨ IsSymbol entity.asStr) :
    Undelimited entity.asStr := by
  rcases parsed with isWord | isSymbol
  · exact isWord.undelimited (by decide) (by decide) (by decide)
  · exact isSymbol.undelimited

theorem canonicalHead_cancel {head head' : PredicateHead} (isName : head.IsName)
    (isName' : head'.IsName) {rest rest' : List Char} (delimited : Delimited rest)
    (delimited' : Delimited rest')
    (same : canonicalHead head ++ rest = canonicalHead head' ++ rest') :
    head = head' ∧ rest = rest' := by
  cases head with
  | id id => exact isName.elim
  | name name =>
    cases head' with
    | id id' => exact isName'.elim
    | name name' =>
      obtain ⟨rfl, rests⟩ :=
        undelimited_cancel isName.undelimited isName'.undelimited delimited delimited' same
      exact ⟨rfl, rests⟩

section Cancel

variable {host}

mutual

/-- The text of a term is told from what delimits it. -/
theorem canonicalTerm_cancel (dates : host.TellsDates) (term term' : Term)
    (meets : term.Meets .parsed) (meets' : term'.Meets .parsed) {rest rest' : List Char}
    (delimited : Delimited rest) (delimited' : Delimited rest')
    (same : canonicalTerm host term ++ rest = canonicalTerm host term' ++ rest') :
    term = term' ∧ rest = rest' := by
  have kinds : term.opening = term'.opening := by
    rw [← opens_canonicalTerm host term rest, ← opens_canonicalTerm host term' rest', same]
  cases term with
  | var name =>
    cases term' with
    | var name' =>
      obtain ⟨rfl, rests⟩ := undelimited_cancel (IsWord.undelimited_name meets)
        (IsWord.undelimited_name meets') delimited delimited' (List.cons.inj same).2
      exact ⟨rfl, rests⟩
    | lit literal' => cases literal' <;> cases kinds
    | _ => cases kinds
  | ent entity =>
    cases term' with
    | ent entity' =>
      obtain ⟨name⟩ := entity
      obtain ⟨name'⟩ := entity'
      obtain ⟨rfl, rests⟩ := undelimited_cancel (undelimited_entity meets)
        (undelimited_entity meets') delimited delimited' (List.cons.inj same).2
      exact ⟨rfl, rests⟩
    | lit literal' => cases literal' <;> cases kinds
    | _ => cases kinds
  | lit literal =>
    cases term' with
    | lit literal' =>
      obtain ⟨rfl, rests⟩ := canonicalLiteral_cancel dates meets meets' delimited delimited' same
      exact ⟨rfl, rests⟩
    | _ => cases literal <;> cases kinds
  | compound pred =>
    cases term' with
    | compound pred' =>
      obtain ⟨rfl, rests⟩ := canonicalPredicate_cancel dates pred pred' meets meets' same
      exact ⟨rfl, rests⟩
    | lit literal' => cases literal' <;> cases kinds
    | _ => cases kinds
  | list items =>
    cases term' with
    | list items' =>
      have inside : canonicalItems host items ++ ']' :: rest =
          canonicalItems host items' ++ ']' :: rest' := by
        simpa [canonicalTerm] using same
      obtain ⟨rfl, rests⟩ := canonicalItems_cancel dates items items' meets meets' inside
      exact ⟨rfl, rests⟩
    | lit literal' => cases literal' <;> cases kinds
    | _ => cases kinds

/-- The text of a predicate is told from whatever follows its bracket. -/
theorem canonicalPredicate_cancel (dates : host.TellsDates) (pred pred' : Predicate)
    (meets : pred.Meets .parsed) (meets' : pred'.Meets .parsed) {rest rest' : List Char}
    (same : canonicalPredicateInner host pred ++ rest =
      canonicalPredicateInner host pred' ++ rest') : pred = pred' ∧ rest = rest' := by
  cases pred with | mk head args named =>
  cases pred' with | mk head' args' named' =>
  obtain ⟨isName, meetsArgs, meetsNamed⟩ := meets
  obtain ⟨isName', meetsArgs', meetsNamed'⟩ := meets'
  have inside : canonicalHead head ++ (canonicalArgs host args ++
        (canonicalNamed host named ++ ')' :: rest)) =
      canonicalHead head' ++ (canonicalArgs host args' ++
        (canonicalNamed host named' ++ ')' :: rest')) := by
    simpa [canonicalPredicateInner] using same
  obtain ⟨rfl, afterHead⟩ := canonicalHead_cancel isName isName'
    (delimited_canonicalArgs host args (closes_canonicalNamed host named rest).1)
    (delimited_canonicalArgs host args' (closes_canonicalNamed host named' rest').1) inside
  obtain ⟨rfl, afterArgs⟩ := canonicalArgs_cancel dates args args' meetsArgs meetsArgs'
    (closes_canonicalNamed host named rest) (closes_canonicalNamed host named' rest') afterHead
  obtain ⟨rfl, rests⟩ := canonicalNamed_cancel dates named named' meetsNamed meetsNamed' afterArgs
  exact ⟨rfl, rests⟩

theorem canonicalItems_cancel (dates : host.TellsDates) (items items' : List Term)
    (meets : Term.AllMeet .parsed items) (meets' : Term.AllMeet .parsed items')
    {rest rest' : List Char}
    (same : canonicalItems host items ++ ']' :: rest =
      canonicalItems host items' ++ ']' :: rest') : items = items' ∧ rest = rest' := by
  cases items with
  | nil =>
    cases items' with
    | nil => exact ⟨rfl, (List.cons.inj same).2⟩
    | cons term' items' => exact absurd same.symm (canonicalItems_ne host term' items' _ _)
  | cons term items =>
    cases items' with
    | nil => exact absurd same (canonicalItems_ne host term items _ _)
    | cons term' items' =>
      have inside : canonicalTerm host term ++ (canonicalArgs host items ++ ']' :: rest) =
          canonicalTerm host term' ++ (canonicalArgs host items' ++ ']' :: rest') := by
        simpa [canonicalItems] using same
      obtain ⟨rfl, afterTerm⟩ := canonicalTerm_cancel dates term term' meets.1 meets'.1
        (delimited_canonicalArgs host items (closes_bracket rest).1)
        (delimited_canonicalArgs host items' (closes_bracket rest').1) inside
      obtain ⟨rfl, rests⟩ := canonicalArgs_cancel dates items items' meets.2 meets'.2
        (closes_bracket rest) (closes_bracket rest') afterTerm
      exact ⟨rfl, (List.cons.inj rests).2⟩

theorem canonicalArgs_cancel (dates : host.TellsDates) (args args' : List Term)
    (meets : Term.AllMeet .parsed args) (meets' : Term.AllMeet .parsed args')
    {rest rest' : List Char} (closes : Closes rest) (closes' : Closes rest')
    (same : canonicalArgs host args ++ rest = canonicalArgs host args' ++ rest') :
    args = args' ∧ rest = rest' := by
  cases args with
  | nil =>
    cases args' with
    | nil => exact ⟨rfl, same⟩
    | cons term' args' => exact absurd same (closes.ne_canonicalArgs host term' args' _)
  | cons term args =>
    cases args' with
    | nil => exact absurd same.symm (closes'.ne_canonicalArgs host term args _)
    | cons term' args' =>
      have inside : canonicalTerm host term ++ (canonicalArgs host args ++ rest) =
          canonicalTerm host term' ++ (canonicalArgs host args' ++ rest') := by
        simpa [canonicalArgs] using same
      obtain ⟨rfl, afterTerm⟩ := canonicalTerm_cancel dates term term' meets.1 meets'.1
        (delimited_canonicalArgs host args closes.1)
        (delimited_canonicalArgs host args' closes'.1) inside
      obtain ⟨rfl, rests⟩ := canonicalArgs_cancel dates args args' meets.2 meets'.2 closes closes'
        afterTerm
      exact ⟨rfl, rests⟩

theorem canonicalNamed_cancel (dates : host.TellsDates) (named named' : List (String × Term))
    (meets : Term.AllMeetNamed .parsed named) (meets' : Term.AllMeetNamed .parsed named')
    {rest rest' : List Char}
    (same : canonicalNamed host named ++ ')' :: rest =
      canonicalNamed host named' ++ ')' :: rest') : named = named' ∧ rest = rest' := by
  cases named with
  | nil =>
    cases named' with
    | nil => exact ⟨rfl, (List.cons.inj same).2⟩
    | cons entry' named' => cases same
  | cons entry named =>
    cases named' with
    | nil => cases same
    | cons entry' named' =>
      cases entry with | mk key term =>
      cases entry' with | mk key' term' =>
      obtain ⟨isKey, meetsTerm, meetsNamed⟩ := meets
      obtain ⟨isKey', meetsTerm', meetsNamed'⟩ := meets'
      have inside : key.toList ++ ' ' :: (canonicalTerm host term ++
            (canonicalNamed host named ++ ')' :: rest)) =
          key'.toList ++ ' ' :: (canonicalTerm host term' ++
            (canonicalNamed host named' ++ ')' :: rest')) := by
        simpa [canonicalNamed] using same
      obtain ⟨rfl, afterKey⟩ := undelimited_cancel (IsWord.undelimited_name isKey)
        (IsWord.undelimited_name isKey') (delimited_space _) (delimited_space _) inside
      obtain ⟨rfl, afterTerm⟩ := canonicalTerm_cancel dates term term' meetsTerm meetsTerm'
        (closes_canonicalNamed host named rest).1 (closes_canonicalNamed host named' rest').1
        (List.cons.inj afterKey).2
      obtain ⟨rfl, rests⟩ :=
        canonicalNamed_cancel dates named named' meetsNamed meetsNamed' afterTerm
      exact ⟨rfl, rests⟩

end

/-- Two predicates that the parser returns have the same canonical text only when they are
the same. -/
theorem canonicalPredicate_injective [F32 F] (dates : host.TellsDates) {pred pred' : Predicate}
    (produced : Parser.Produces host pred) (produced' : Parser.Produces host pred')
    (same : canonicalPredicate host pred = canonicalPredicate host pred') : pred = pred' := by
  have texts := congrArg (· ++ []) (String.ofList_injective same)
  exact (canonicalPredicate_cancel dates pred pred' produced.meets produced'.meets texts).1

end Cancel

end Texts

namespace Tenths

/-- A predicate with a text, a list and a named argument. -/
def wrote : Predicate :=
  ⟨.name "wrote", [.lit (.str "a\"b")], [("at", .list [.ent ⟨"c"⟩, .var "x"])]⟩

/-- Two ways to write one predicate. -/
theorem canonicalPredicate_injective_wrote :
    ∃ pred pred', Parser.parsePredicate host "(wrote \"a\\\"b\" :at [@c ?x])" = .ok pred ∧
      Parser.parsePredicate host "(wrote\t\"a\\\"b\" :at [c ?x ])" = .ok pred' ∧ pred = pred' := by
  have first : Parser.parsePredicate host "(wrote \"a\\\"b\" :at [@c ?x])" = .ok wrote := by
    decide +kernel
  have second : Parser.parsePredicate host "(wrote\t\"a\\\"b\" :at [c ?x ])" = .ok wrote := by
    decide +kernel
  exact ⟨wrote, wrote, first, second, canonicalPredicate_injective host_lawful.tellsDates
    (.inl ⟨_, first⟩) (.inl ⟨_, second⟩) rfl⟩

end Tenths

end Factum
