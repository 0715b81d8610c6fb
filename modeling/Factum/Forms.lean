/-
This file is about the top level of a text.

The parser goes over the top level by the kinds of the tokens: it reads the forms that
start like a node, skips the other forms, and passes over what is no form. A form that
starts like a node is read up to the parenthesis that closes it, so where all forms of a
text do, the nodes that the parser returns are the nodes of the forms, one for each.
-/

import Factum.Positions
import Factum.WithinNode

namespace Factum

open Stateful Lexer

/-! ### The forms of the top level -/

/-- The forms of the top level, each with all tokens from its opening parenthesis on, where
some parentheses are open before. -/
def topForms : Nat → List TokenKind → List (List TokenKind)
  | _, [] => []
  | 0, .lParen :: rest => (.lParen :: rest) :: topForms 1 rest
  | level + 1, .lParen :: rest => topForms (level + 2) rest
  | level, .rParen :: rest => topForms (level - 1) rest
  | level, _ :: rest => topForms level rest

/-- A form that starts like a node. -/
def IsNodeForm (form : List TokenKind) : Prop := form[1]? = some (.symbol "node")

instance (form : List TokenKind) : Decidable (IsNodeForm form) :=
  inferInstanceAs (Decidable (_ = _))

/-- Inside a form, the next form of the top level comes after the parenthesis that closes it. -/
theorem topForms_succ (kinds : List TokenKind) : ∀ level,
    topForms (level + 1) kinds = topForms 0 (afterClosing level kinds) := by
  induction kinds with
  | nil => exact fun level => rfl
  | cons kind rest inductionHypothesis =>
    intro level
    cases kind with
    | lParen => exact inductionHypothesis (level + 1)
    | rParen =>
      cases level with
      | zero => rfl
      | succ level => exact inductionHypothesis level
    | _ =>
      rw [afterClosing_of_isLevel (by simp [TokenKind.IsLevel]), ← inductionHypothesis level]
      rfl

theorem topForms_of_isLevel {kind : TokenKind} (isLevel : kind.IsLevel) (rest : List TokenKind) :
    topForms 0 (kind :: rest) = topForms 0 rest := by
  cases kind with
  | lParen => exact absurd rfl isLevel.1
  | rParen => exact absurd rfl isLevel.2
  | _ => rfl

/-- The rest of the top level after a form that is closed. -/
theorem topForms_form {body : Reading} (flat : body.Flat) (rest : List TokenKind) :
    topForms 1 (body.used ++ .rParen :: rest) = topForms 0 rest := by
  rw [topForms_succ, flat]
  rfl

namespace Parser

variable {F : Type} [F32 F] (host : Host F)

/-! ### The node of a form -/

/-- A parser before tokens of these kinds. Their positions matter to errors only. -/
def ofKinds (kinds : List TokenKind) : Parser := ⟨kinds.map fun kind => ⟨kind, 0, 0, 0⟩, 0⟩

theorem kinds_ofKinds (kinds : List TokenKind) : (ofKinds kinds).kinds = kinds := by
  rw [Parser.kinds, ofKinds, List.map_map]
  exact List.map_id _

/-- The node that a form writes: the one that is read from its opening parenthesis on. -/
def writes (form : List TokenKind) : Option (Node F) :=
  (answer (parseNode host) (ofKinds form)).toOption

variable {host}

theorem writes_eq_some {form : List TokenKind} {node : Node F}
    (isWritten : writes host form = some node) :
    ∃ after, parseNode host (ofKinds form) = .ok node after := by
  unfold writes at isWritten
  cases answered : answer (parseNode host) (ofKinds form) with
  | ok value =>
    rw [answered] at isWritten
    cases isWritten
    exact answer_eq_ok.mp answered
  | error stop =>
    rw [answered] at isWritten
    cases isWritten

/-- A node that is read is the one that its form writes, and it is read to the parenthesis
that closes the form. -/
theorem parseNode_ok {before after : Parser} {node : Node F} (level : before.depth = 0)
    (ran : parseNode host before = .ok node after) :
    writes host before.kinds = some node ∧ after.depth = 0 ∧
      ∃ body : Reading, body.Flat ∧
        before.kinds = .lParen :: (body.used ++ .rParen :: after.kinds) := by
  obtain ⟨reading, ⟨body, flat, isUsed⟩, isRead, sameDepth, deep, again⟩ :=
    isForm_parseNode host Whatever before node after trivial ran
  obtain ⟨after', ran', _⟩ := again reading.fuel after.kinds (ofKinds before.kinds) le_rfl
    False.elim (by rw [kinds_ofKinds, isRead]) (by rw [level] at deep; exact deep)
  refine ⟨?_, sameDepth.trans level, body, flat, ?_⟩
  · rw [writes, answer_ok ran']
    rfl
  · rw [isRead, isUsed, List.cons_append, List.append_assoc]
    rfl

/-! ### The top level -/

/-- The kinds of the tokens after a form that is skipped, where some brackets are open. -/
def afterSkip : Nat → List TokenKind → List TokenKind
  | _, [] => []
  | 0, kinds => kinds
  | _ + 1, .eof :: rest => .eof :: rest
  | depth + 1, .lParen :: rest => afterSkip (depth + 2) rest
  | depth + 1, .lBracket :: rest => afterSkip (depth + 2) rest
  | depth + 1, .rParen :: rest => afterSkip depth rest
  | depth + 1, _ :: rest => afterSkip (depth + 1) rest

/-- One round of the skipper. -/
theorem skipSexpLoop_cons (fuel depth : Nat) (tok : Token) (rest : List Token) (level : Nat) :
    skipSexpLoop .rParen (fuel + 1) depth ⟨tok :: rest, level⟩ =
      if depth = 0 ∨ tok.kind = .eof then .ok () ⟨tok :: rest, level⟩
      else skipSexpLoop .rParen fuel (match tok.kind with
        | .lParen | .lBracket => depth + 1
        | .rParen => depth - 1
        | _ => depth) ⟨rest, level⟩ := by
  obtain ⟨kind, offset, line, col⟩ := tok
  have atEnd : ∀ {α : Type} (next : Bool → ParserM α),
      (isAtEnd >>= next) ⟨⟨kind, offset, line, col⟩ :: rest, level⟩ =
        next (kind == .eof) ⟨⟨kind, offset, line, col⟩ :: rest, level⟩ := fun _ => rfl
  rw [skipSexpLoop, atEnd]
  by_cases stops : depth = 0 ∨ kind = .eof
  · rw [if_pos stops, if_pos (by simpa using stops)]
    rfl
  · rw [if_neg stops, if_neg (by simpa using stops)]
    obtain ⟨_, notEof⟩ := not_or.mp stops
    have peeked : ∀ {α : Type} (next : TokenKind → ParserM α),
        (peekKind >>= next) ⟨⟨kind, offset, line, col⟩ :: rest, level⟩ =
          next kind ⟨⟨kind, offset, line, col⟩ :: rest, level⟩ := fun _ => rfl
    have read : ∀ {α : Type} (next : ParserM α),
        (discard advance >>= fun _ => next) ⟨⟨kind, offset, line, col⟩ :: rest, level⟩ =
          next ⟨rest, level⟩ := by
      intro α next
      exact bind_ok (discard_ok (advance_run notEof rest level))
    dsimp only
    rw [peeked, read]
    cases kind <;> rfl

theorem skipSexpLoop_ok : ∀ (fuel depth : Nat) {before after : Parser},
    skipSexpLoop .rParen fuel depth before = .ok () after →
      after.kinds = afterSkip depth before.kinds ∧ after.depth = before.depth := by
  intro fuel
  induction fuel with
  | zero =>
    intro depth before after ran
    cases ran
  | succ fuel inductionHypothesis =>
    rintro depth ⟨tokens, level⟩ after ran
    cases tokens with
    | nil => cases ran
    | cons tok rest =>
      obtain ⟨kind, offset, line, col⟩ := tok
      rw [skipSexpLoop_cons] at ran
      split_ifs at ran with stops
      · cases ran
        refine ⟨?_, rfl⟩
        show kind :: rest.map (·.kind) = afterSkip depth (kind :: rest.map (·.kind))
        rcases stops with rfl | isEof
        · rfl
        · obtain rfl : kind = .eof := isEof
          cases depth <;> rfl
      · obtain ⟨isAfter, sameLevel⟩ := inductionHypothesis _ ran
        obtain ⟨open_, notEof⟩ := not_or.mp stops
        obtain ⟨depth, rfl⟩ := Nat.exists_eq_add_one_of_ne_zero open_
        refine ⟨isAfter.trans ?_, sameLevel⟩
        show _ = afterSkip (depth + 1) (kind :: rest.map (·.kind))
        cases kind with
        | eof => exact absurd rfl notEof
        | _ => rfl

/-- What the top level of a text is read as, by the kinds of its tokens. -/
inductive Tops (host : Host F) : List TokenKind → List (Node F) → Prop
  | eof (rest : List TokenKind) : Tops host (.eof :: rest) []
  | node {body : Reading} {rest : List TokenKind} {node : Node F} {nodes : List (Node F)} :
      body.Flat → IsNodeForm (.lParen :: (body.used ++ .rParen :: rest)) →
      writes host (.lParen :: (body.used ++ .rParen :: rest)) = some node → Tops host rest nodes →
      Tops host (.lParen :: (body.used ++ .rParen :: rest)) (node :: nodes)
  | skipped {rest : List TokenKind} {nodes : List (Node F)} : ¬ IsNodeForm (.lParen :: rest) →
      Tops host (afterSkip 1 rest) nodes → Tops host (.lParen :: rest) nodes
  | stray {kind : TokenKind} {rest : List TokenKind} {nodes : List (Node F)} : kind ≠ .eof →
      kind ≠ .lParen → Tops host rest nodes → Tops host (kind :: rest) nodes

/-- One round of the top level. -/
theorem parseTop_cons (fuel : Nat) (nodes : List (Node F)) (tok : Token) (rest : List Token)
    (level : Nat) : parseTop host (fuel + 1) nodes ⟨tok :: rest, level⟩ =
      if tok.kind = .eof then .ok nodes ⟨tok :: rest, level⟩
      else if tok.kind = .lParen then
        if IsNodeForm (kinds ⟨tok :: rest, level⟩) then
          (parseNode host >>= fun node => parseTop host fuel (nodes ++ [node]))
            ⟨tok :: rest, level⟩
        else (skipSexpLoop .rParen (rest.length + 1) 1 >>= fun _ => parseTop host fuel nodes)
          ⟨rest, level⟩
      else parseTop host fuel nodes ⟨rest, level⟩ := by
  obtain ⟨kind, offset, line, col⟩ := tok
  have peeked : peekKind ⟨⟨kind, offset, line, col⟩ :: rest, level⟩ =
      .ok kind ⟨⟨kind, offset, line, col⟩ :: rest, level⟩ := rfl
  have reads : kind ≠ .eof → (discard advance >>= fun _ => parseTop host fuel nodes)
      ⟨⟨kind, offset, line, col⟩ :: rest, level⟩ = parseTop host fuel nodes ⟨rest, level⟩ :=
    fun notEof => bind_ok (discard_ok (advance_run notEof rest level))
  rw [parseTop, bind_ok peeked]
  cases kind with
  | eof => rfl
  | lParen =>
    have second : ∀ next : Option TokenKind → ParserM (List (Node F)),
        (peekKindAt 1 >>= next) ⟨⟨.lParen, offset, line, col⟩ :: rest, level⟩ =
          next (rest[0]?.map (·.kind)) ⟨⟨.lParen, offset, line, col⟩ :: rest, level⟩ :=
      fun _ => rfl
    have isForm : IsNodeForm (kinds ⟨⟨.lParen, offset, line, col⟩ :: rest, level⟩) ↔
        rest[0]?.map (·.kind) = some (.symbol "node") := by
      rw [IsNodeForm, kinds, List.getElem?_map, List.getElem?_cons_succ]
    dsimp only
    rw [second, if_neg (show ¬ TokenKind.lParen = .eof by simp), if_pos rfl]
    by_cases isNode : rest[0]?.map (·.kind) = some (.symbol "node")
    · rw [if_pos isNode, if_pos (isForm.mpr isNode)]
    · rw [if_neg isNode, if_neg (mt isForm.mp isNode)]
      rfl
  | _ => exact reads (by simp)
theorem tops_of_parseTop : ∀ (fuel : Nat) (nodes : List (Node F)) {result : List (Node F)}
    {before after : Parser}, before.depth = 0 → parseTop host fuel nodes before = .ok result after →
      ∃ more, result = nodes ++ more ∧ Tops host before.kinds more := by
  intro fuel
  induction fuel with
  | zero =>
    intro nodes result before after _ ran
    cases ran
  | succ fuel inductionHypothesis =>
    rintro nodes result ⟨tokens, _⟩ after rfl ran
    cases tokens with
    | nil => cases ran
    | cons tok rest =>
      rw [parseTop_cons] at ran
      show ∃ more, result = nodes ++ more ∧ Tops host (tok.kind :: rest.map (·.kind)) more
      split_ifs at ran with isEof isOpen isNode
      · cases ran
        rw [isEof]
        exact ⟨[], (List.append_nil _).symm, .eof _⟩
      · obtain ⟨node, between, read, ran⟩ := bind_eq_ok.mp ran
        obtain ⟨isWritten, level, body, flat, isForm⟩ := parseNode_ok rfl read
        obtain ⟨more, same, tops⟩ := inductionHypothesis _ level ran
        have isForm : tok.kind :: rest.map (·.kind) =
          .lParen :: (body.used ++ .rParen :: between.kinds) := isForm
        refine ⟨node :: more, by rw [same, List.append_assoc, List.singleton_append], ?_⟩
        rw [isForm]
        exact .node flat (isForm ▸ isNode) (isForm ▸ isWritten) tops
      · obtain ⟨⟨⟩, between, skipped, ran⟩ := bind_eq_ok.mp ran
        obtain ⟨isAfter, level⟩ := skipSexpLoop_ok _ _ skipped
        obtain ⟨more, same, tops⟩ := inductionHypothesis nodes level ran
        have notNode : ¬ IsNodeForm (tok.kind :: rest.map (·.kind)) := isNode
        rw [isOpen] at notNode ⊢
        exact ⟨more, same, .skipped notNode (isAfter ▸ tops)⟩
      · obtain ⟨more, same, tops⟩ := inductionHypothesis nodes rfl ran
        exact ⟨more, same, .stray isEof isOpen tops⟩

/-- What is read as a node starts like one. -/
theorem isNodeForm_of_writes {form : List TokenKind} {node : Node F}
    (isWritten : writes host form = some node) : IsNodeForm form := by
  obtain ⟨after, ran⟩ := writes_eq_some isWritten
  obtain ⟨_, inner, ranInside, rfl⟩ := withDepth_ok ran
  obtain ⟨⟨⟩, opened, opens, ranRest⟩ := bind_eq_ok.mp ranInside
  obtain ⟨⟨⟩, named, names, _⟩ := bind_eq_ok.mp ranRest
  have readsOpen : ReadsOnly .lParen (discard (expect host .lParen)) := by
    refine readsOnly_expect host (by simp) fun got same => ?_
    cases got <;> first | rfl | cases same
  obtain ⟨isOpen, _⟩ := (readsOpen _ _).mp opens
  obtain ⟨isNode, _⟩ := (readsOnly_expectSymbol "node" _ _).mp names
  have isForm : form = .lParen :: .symbol "node" :: named.kinds := by
    rw [← isNode, ← isOpen]
    exact (kinds_ofKinds form).symm
  rw [isForm]
  rfl

/-- The end of the input comes last. -/
def EofLast (kinds : List TokenKind) : Prop :=
  ∀ front rest, kinds = front ++ .eof :: rest → rest = []

theorem EofLast.suffix (front : List TokenKind) {kinds : List TokenKind}
    (eofLast : EofLast (front ++ kinds)) : EofLast kinds :=
  fun front' rest same => eofLast (front ++ front') rest (by rw [same, List.append_assoc])

/-- Where all forms start like a node, the nodes are those of the forms. -/
theorem Tops.map_writes {kinds : List TokenKind} {nodes : List (Node F)}
    (tops : Tops host kinds nodes) (eofLast : EofLast kinds)
    (areNodes : ∀ form ∈ topForms 0 kinds, IsNodeForm form) :
    (topForms 0 kinds).map (writes host) = nodes.map some := by
  induction tops with
  | eof rest =>
    obtain rfl := eofLast [] rest rfl
    rfl
  | @node body rest node nodes flat _ isWritten _ inductionHypothesis =>
    rw [topForms, topForms_form flat] at areNodes ⊢
    have eofLast : EofLast rest := by
      refine EofLast.suffix (.lParen :: body.used ++ [.rParen]) ?_
      rwa [List.append_assoc]
    rw [List.map_cons, List.map_cons, isWritten, inductionHypothesis eofLast
      (List.forall_mem_cons.mp areNodes).2]
  | skipped notNode => exact absurd (areNodes _ List.mem_cons_self) notNode
  | @stray kind rest nodes _ notOpen _ inductionHypothesis =>
    have same : topForms 0 (kind :: rest) = topForms 0 rest := by
      cases kind with
      | lParen => exact absurd rfl notOpen
      | _ => rfl
    rw [same] at areNodes ⊢
    exact inductionHypothesis (EofLast.suffix [kind] eofLast) areNodes

/-! ### The forms of a text -/

/-- The tokens of a text end with the end of the input. -/
theorem eofLast_of_tokensOf {src : String} {tokens : List Token}
    (read : tokensOf src = .ok tokens) : EofLast (tokens.map (·.kind)) := by
  unfold tokensOf at read
  split at read
  · cases read
  · cases read
  · cases read
  · rename_i tokens' tokenized
    split_ifs at read
    cases read
    obtain ⟨_, _, front, last, rfl, isEof, notEof⟩ := (laid_of_tokenize tokenized).ordered
    intro before rest same
    rcases List.eq_nil_or_concat rest with rfl | ⟨rest, other, rfl⟩
    · rfl
    · rw [List.map_append, List.map_singleton, List.concat_eq_append, ← List.cons_append,
        ← List.append_assoc] at same
      obtain ⟨isFront, _⟩ := List.append_inj' same rfl
      have member : TokenKind.eof ∈ front.map (·.kind) := by
        rw [isFront]
        exact List.mem_append_right before List.mem_cons_self
      obtain ⟨tok, inFront, isEof'⟩ := List.mem_map.mp member
      exact absurd isEof' (notEof tok inFront)

end Parser

/-- The forms of the top level of a text. -/
def formsOf (src : String) : List (List TokenKind) :=
  match Parser.tokensOf src with
  | .ok tokens => topForms 0 (tokens.map (·.kind))
  | .error _ => []

/-- Where all forms of a text start like a node, its nodes are those of the forms. -/
theorem map_writes_of_parse {F : Type} [F32 F] {host : Host F} {src : String}
    {nodes : List (Node F)} (parsed : Parser.parse host src = .ok nodes)
    (areNodes : ∀ form ∈ formsOf src, IsNodeForm form) :
    (formsOf src).map (Parser.writes host) = nodes.map some := by
  unfold Parser.parse at parsed
  unfold formsOf at areNodes ⊢
  cases read : Parser.tokensOf src with
  | error stop =>
    rw [read] at parsed
    cases parsed
  | ok tokens =>
    rw [read] at parsed areNodes
    obtain ⟨after, ran⟩ := answer_eq_ok.mp parsed
    obtain ⟨more, rfl, tops⟩ := Parser.tops_of_parseTop _ [] rfl ran
    exact tops.map_writes (Parser.eofLast_of_tokensOf read) areNodes

end Factum
