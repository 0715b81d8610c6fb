/-
This file is about documents: several nodes, each on a line of its own.

The text of a node ends with a parenthesis, so it is read the same whatever follows it, and
the newline after it is skipped. A document of printable nodes is tokenized to the tokens of
its nodes, one after the other, and the parser reads them as these nodes again. So two
documents of printable nodes with the same text are the same.
-/

import Factum.RoundTrip

namespace Factum

open Stateful Lexer

/-! ### Lines -/

/-- A newline before the first token changes nothing but the place. -/
theorem Lexer.Scans.newline {rest : List UInt8} {pos line col : Nat} {last : Lexer}
    {kinds : List TokenKind} (nonempty : kinds ≠ [])
    (scans : Scans ⟨rest, pos + 1, line + 1, 1⟩ kinds last) :
    Scans ⟨byte '\n' :: rest, pos, line, col⟩ kinds last := by
  have same : skipped ⟨byte '\n' :: rest, pos, line, col⟩ =
      skipped ⟨rest, pos + 1, line + 1, 1⟩ := rfl
  cases scans with
  | done => exact absurd rfl nonempty
  | token starts notComment read shorter after =>
    rw [← same] at starts read
    exact .token starts notComment read (shorter.trans (Nat.lt_succ_self _)) after

/-- A text that is read as tokens of these kinds whatever follows it. -/
def ReadsAnywhere (text : List Char) (kinds : List TokenKind) : Prop :=
  ∀ rest, ∀ lexer : Lexer, lexer.At (text ++ rest) → ∃ last, last.At rest ∧ Scans lexer kinds last

/-- A piece with a parenthesis after it. -/
theorem Lexer.Piece.closed {text : List Char} {kinds : List TokenKind} (piece : Piece text kinds) :
    ReadsAnywhere (text ++ [')']) (kinds ++ [.rParen]) := by
  intro rest lexer here
  have delimited : Delimited (')' :: rest) :=
    fun _ _ same => .inr (.inl (List.cons.inj same).1.symm)
  rw [List.append_assoc] at here
  obtain ⟨between, atParen, scans⟩ := piece.reads _ delimited lexer here
  obtain ⟨last, atRest, scans'⟩ := readsToken_rParen.scans rfl trivial atParen
  exact ⟨last, atRest, scans.trans scans'⟩

section Documents

variable {F : Type} [F32 F] {host : Host F}

theorem readsAnywhere_node (lawful : host.Lawful) {node : Node F} (printable : node.Printable) :
    ReadsAnywhere (canonicalNode host node) (node.tokens host) := by
  have fields := piece_fields _ (reads_fields lawful printable)
  have word : Piece "node".toList [.symbol "node"] := piece_symbol (by decide)
  have named := (piece_symbol printable.id).append fields (delimiting_fields _)
  have reads := (word.spaced named (by simp)).lParen.closed
  rw [canonicalNode_eq, Node.tokens]
  simpa using reads

/-- The tokens of several nodes, one after the other. -/
def documentTokens (host : Host F) (nodes : List (Node F)) : List TokenKind :=
  nodes.flatMap fun node => node.tokens host

omit [F32 F] in
theorem Node.tokens_ne_nil (node : Node F) : node.tokens host ≠ [] := List.cons_ne_nil _ _

/-- The lines of printable nodes are read as the tokens of the nodes, to the end. -/
theorem scans_document (lawful : host.Lawful) : ∀ {nodes : List (Node F)},
    (∀ node ∈ nodes, node.Printable) → ∀ {lexer : Lexer},
      lexer.At (nodes.flatMap fun node => canonicalNode host node ++ ['\n']) →
      ∃ last, Scans lexer (documentTokens host nodes) last ∧ (skipped last).src = [] := by
  intro nodes
  induction nodes with
  | nil =>
    intro _ lexer here
    have empty : lexer.src = [] := here
    exact ⟨lexer, .done lexer, by rw [skipped, empty]; rfl⟩
  | cons node rest inductionHypothesis =>
    intro printable lexer here
    obtain ⟨first, others⟩ := List.forall_mem_cons.mp printable
    rw [List.flatMap_cons, List.append_assoc] at here
    obtain ⟨between, atNewline, scans⟩ := readsAnywhere_node lawful first _ lexer here
    obtain ⟨src, pos, line, col⟩ := between
    obtain rfl : src = byte '\n' :: Utf8.bytes
        (rest.flatMap fun node => canonicalNode host node ++ ['\n']) := atNewline
    have atRest : Lexer.At ⟨_, pos + 1, line + 1, 1⟩
        (rest.flatMap fun node => canonicalNode host node ++ ['\n']) := rfl
    obtain ⟨last, scans', ends⟩ := inductionHypothesis others atRest
    cases rest with
    | nil =>
      rw [documentTokens, List.flatMap_singleton]
      exact ⟨_, scans, rfl⟩
    | cons second later =>
      have nonempty : documentTokens host (second :: later) ≠ [] := by
        rw [documentTokens, List.flatMap_cons]
        exact fun same => second.tokens_ne_nil (List.append_eq_nil_iff.mp same).1
      exact ⟨last, scans.trans (scans'.newline nonempty), ends⟩

namespace Parser

/-- A text that is read to its end has as many tokens as are read. -/
theorem tokenCount_of_scans {text : List Char} {kinds : List TokenKind} {last : Lexer}
    (scans : Scans (Lexer.new (String.ofList text)) kinds last)
    (ends : (skipped last).src = []) : tokenCount (String.ofList text) = some kinds.length := by
  obtain ⟨tokens, eof, after, ran, areKinds, -⟩ := tokenizeLoop_of_scans scans ends _ []
    (Nat.lt_succ_self _) (by simpa using scans.length_le)
  unfold tokenCount
  simp only [ran]
  rw [List.nil_append, List.length_append, List.length_singleton, Nat.add_sub_cancel, ← areKinds,
    List.length_map]

/-- A text that is read to its end is read as these tokens, unless they are too many. -/
theorem tokensOf_of_scans {text : List Char} {kinds : List TokenKind} {last : Lexer}
    (scans : Scans (Lexer.new (String.ofList text)) kinds last) (ends : (skipped last).src = [])
    (few : kinds.length < maxTokens) : ∃ tokens eof,
      tokensOf (String.ofList text) = .ok (tokens ++ [eof]) ∧ tokens.map (·.kind) = kinds ∧
        eof.kind = .eof := by
  obtain ⟨tokens, eof, after, ran, areKinds, isEof⟩ := tokenizeLoop_of_scans scans ends _ []
    (Nat.lt_succ_self _) (by simpa using few.le)
  refine ⟨tokens, eof, ?_, areKinds, isEof⟩
  have length : ¬ maxTokens < (tokens ++ [eof]).length := by
    have count := congrArg List.length areKinds
    rw [List.length_map] at count
    rw [List.length_append, List.length_singleton]
    omega
  unfold tokensOf tokenize
  simp only [ran, List.nil_append]
  rw [if_neg length]

omit [F32 F] in
theorem length_le_documentTokens (nodes : List (Node F)) :
    nodes.length ≤ (documentTokens host nodes).length := by
  induction nodes with
  | nil => exact Nat.zero_le _
  | cons node rest inductionHypothesis =>
    rw [documentTokens, List.flatMap_cons, List.length_append, ← documentTokens, List.length_cons,
      Nat.add_comm]
    exact Nat.add_le_add (List.length_pos_of_ne_nil node.tokens_ne_nil) inductionHypothesis

/-- At the top, the tokens of nodes are read as the nodes. -/
theorem takes_parseTop_document (lawful : host.Lawful) : ∀ {nodes : List (Node F)},
    (∀ node ∈ nodes, node.Printable) → ∀ {fuel : Nat}, nodes.length < fuel →
      ∀ read : List (Node F),
        Takes (· = .eof) (parseTop host fuel read) 0 (documentTokens host nodes)
          (read ++ nodes) := by
  intro nodes
  induction nodes with
  | nil =>
    intro _ fuel enough read
    obtain ⟨less, rfl⟩ := Nat.exists_eq_add_one_of_ne_zero (Nat.ne_zero_of_lt enough)
    rw [parseTop, List.append_nil]
    refine takes_peek_bind_nil ?_
    rintro kind rfl
    exact takes_pure _
  | cons node rest inductionHypothesis =>
    intro printable fuel enough read
    obtain ⟨first, others⟩ := List.forall_mem_cons.mp printable
    obtain ⟨less, rfl⟩ := Nat.exists_eq_add_one_of_ne_zero (Nat.ne_zero_of_lt enough)
    have later := inductionHypothesis others (Nat.lt_of_succ_lt_succ enough) (read ++ [node])
    rw [List.append_assoc, List.singleton_append] at later
    have whole : Takes (· = .eof)
        (parseNode host >>= fun node => parseTop host less (read ++ [node])) 0
        (node.tokens host ++ documentTokens host rest) (read ++ node :: rest) :=
      (takes_parseNode lawful first).bind later
    obtain ⟨kinds, isTokens⟩ : ∃ kinds, node.tokens host = .lParen :: .symbol "node" :: kinds :=
      ⟨_, rfl⟩
    rw [documentTokens, List.flatMap_cons, ← documentTokens]
    rw [isTokens] at whole ⊢
    rw [parseTop]
    refine takes_peek_bind (takes_peekKindAt_bind ?_)
    rw [if_pos rfl]
    exact whole

/-- A document of printable nodes is read back as the nodes, unless it has too many tokens. -/
theorem parse_canonicalAll (lawful : host.Lawful) {nodes : List (Node F)}
    (printable : ∀ node ∈ nodes, node.Printable)
    (few : ∀ count, tokenCount (canonicalAll host nodes) = some count → count < maxTokens) :
    parse host (canonicalAll host nodes) = .ok nodes := by
  obtain ⟨last, scans, ends⟩ := scans_document lawful printable (new_at _)
  have count := tokenCount_of_scans scans ends
  obtain ⟨tokens, eof, read, areKinds, isEof⟩ := tokensOf_of_scans scans ends (few _ count)
  have enough : nodes.length < (tokens ++ [eof]).length + 1 := by
    have lengths := congrArg List.length areKinds
    rw [List.length_map] at lengths
    rw [List.length_append, lengths]
    exact Nat.lt_succ_of_le ((length_le_documentTokens nodes).trans (Nat.le_add_right _ _))
  have ran := (takes_parseTop_document lawful printable enough []).run tokens eof [] areKinds isEof
  unfold parse
  rw [canonicalAll, read]
  show answer (parseTop host ((tokens ++ [eof]).length + 1) []) ⟨tokens ++ [eof], 0⟩ = _
  rw [answer_ok ran, List.nil_append]

end Parser

end Documents

namespace Tenths

/-- Two lines with a term of every kind. -/
theorem parse_canonicalAll_sample :
    Parser.parse host (canonicalAll host [sample, sample]) = .ok [sample, sample] := by
  have printable : ∀ node ∈ [sample, sample], node.Printable :=
    List.forall_mem_cons.mpr ⟨sample_printable, List.forall_mem_singleton.mpr sample_printable⟩
  refine Parser.parse_canonicalAll host_lawful printable fun count counted => ?_
  obtain ⟨last, scans, ends⟩ := scans_document host_lawful printable (new_at _)
  rw [canonicalAll, Parser.tokenCount_of_scans scans ends] at counted
  rw [← Option.some.inj counted]
  decide

end Tenths

end Factum
