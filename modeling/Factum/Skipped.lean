/-
This file is about texts that are put together with a form between them that is skipped.

The parser reads the top level form by form. A form that is no node is skipped, and the
skipper goes on behind its end if there is an opening square bracket in it: since nothing
takes that bracket off again, the rest of the text is skipped with it, without an error. So
a text is read like its parts exactly where no form that is skipped before the last part
has such a bracket, or where the last part has no node to lose.
-/

import Factum.Joined
import Factum.Nested

namespace Factum

open Stateful Lexer

/-! ### Forms on their own -/

/-- The tokens of a form up to the parenthesis that closes it. -/
def ownTokens (form : List TokenKind) : List TokenKind :=
  form.take (form.length - (afterClosing 0 form.tail).length)

/-- A form that is skipped together with all that follows. -/
def RunsOver (form : List TokenKind) : Prop := ¬ IsNodeForm form ∧ .lBracket ∈ ownTokens form

instance (form : List TokenKind) : Decidable (RunsOver form) :=
  inferInstanceAs (Decidable (_ ∧ _))

/-- The forms that are read or skipped before the rest of the text is skipped. -/
def reached (forms : List (List TokenKind)) : List (List TokenKind) :=
  forms.takeWhile fun form => ¬ RunsOver form

theorem ownTokens_form {inner : List TokenKind} (leveled : Leveled inner)
    (rest : List TokenKind) :
    ownTokens (.lParen :: (inner ++ .rParen :: rest)) = .lParen :: (inner ++ [.rParen]) := by
  have closes : afterClosing 0 (inner ++ .rParen :: rest) = rest := by
    rw [afterClosing_leveled leveled, afterClosing]
  have isForm : TokenKind.lParen :: (inner ++ .rParen :: rest) =
      (.lParen :: (inner ++ [.rParen])) ++ rest := by simp
  rw [ownTokens, List.tail_cons, closes, isForm, List.length_append, Nat.add_sub_cancel,
    List.take_left]

/-- What a form is does not depend on what follows it. -/
theorem runsOver_form {inner : List TokenKind} (leveled : Leveled inner)
    (rest : List TokenKind) : RunsOver (.lParen :: (inner ++ .rParen :: rest)) ↔
      ¬ IsNodeForm (.lParen :: (inner ++ .rParen :: rest)) ∧ 0 < inner.count .lBracket := by
  rw [RunsOver, ownTokens_form leveled, List.count_pos_iff]
  simp

theorem isNodeForm_form {inner rest rest' : List TokenKind} :
    IsNodeForm (.lParen :: (inner ++ .rParen :: rest)) ↔
      IsNodeForm (.lParen :: (inner ++ .rParen :: rest')) := by
  cases inner <;> rfl

/-- The forms of tokens whose round brackets are nested. -/
theorem topForms_parens {inner : List TokenKind} (leveled : Leveled inner)
    (rest : List TokenKind) : topForms 0 (.lParen :: (inner ++ .rParen :: rest)) =
      (.lParen :: (inner ++ .rParen :: rest)) :: topForms 0 rest := by
  rw [topForms, topForms_succ, afterClosing_leveled leveled, afterClosing]

namespace Parser

variable {F : Type} [F32 F] {host : Host F}

/-! ### Nodes -/

/-- A form that writes a node is read as it wherever it stands. -/
theorem parseNode_of_writes {body : Reading} (flat : body.Flat) {rest other : List TokenKind}
    {node : Node F}
    (isWritten : writes host (.lParen :: (body.used ++ .rParen :: rest)) = some node)
    {before : Parser} (isBefore : before.kinds = .lParen :: (body.used ++ .rParen :: other))
    (level : before.depth = 0) :
    ∃ after, parseNode host before = .ok node after ∧ after.kinds = other ∧ after.depth = 0 := by
  obtain ⟨after, ran⟩ := writes_eq_some isWritten
  obtain ⟨reading, ⟨body', flat', isUsed⟩, isRead, -, deep, again⟩ :=
    isForm_parseNode host Whatever _ node after trivial ran
  rw [kinds_ofKinds, isUsed] at isRead
  have isBody : body.used ++ .rParen :: rest = body'.used ++ .rParen :: after.kinds := by
    simpa using isRead
  have sameRest : rest = after.kinds := by
    have closes := congrArg (afterClosing 0) isBody
    rwa [flat, flat', afterClosing, afterClosing] at closes
  have sameBody : body.used = body'.used := by
    rw [sameRest] at isBody
    exact List.append_cancel_right isBody
  obtain ⟨last, ran', isLast, sameDepth⟩ := again reading.fuel other before le_rfl False.elim
    (by rw [isBefore, isUsed, sameBody]; simp) (by rw [level]; exact deep)
  exact ⟨last, ran', isLast, sameDepth.trans level⟩

/-- The node that a form writes does not depend on what follows the form. -/
theorem writes_form {body : Reading} (flat : body.Flat) {rest : List TokenKind} {node : Node F}
    (isWritten : writes host (.lParen :: (body.used ++ .rParen :: rest)) = some node)
    (other : List TokenKind) :
    writes host (.lParen :: (body.used ++ .rParen :: other)) = some node := by
  obtain ⟨after, ran, -⟩ := parseNode_of_writes flat isWritten (kinds_ofKinds _) rfl
  rw [writes, answer_ok ran]
  rfl

/-! ### The top level -/

theorem skipSexpLoop_run : ∀ (fuel depth : Nat) (tokens : List Token) (level : Nat),
    tokens.length < fuel → .eof ∈ tokens.map (·.kind) →
      ∃ after, skipSexpLoop .rParen fuel depth ⟨tokens, level⟩ = .ok () after
  | 0, _, _, _, enough, _ => absurd enough (Nat.not_lt_zero _)
  | fuel + 1, depth, [], level, _, ends => absurd ends List.not_mem_nil
  | fuel + 1, depth, tok :: rest, level, enough, ends => by
    rw [skipSexpLoop_cons]
    split_ifs with stops
    · exact ⟨_, rfl⟩
    · refine skipSexpLoop_run fuel _ rest level (Nat.lt_of_succ_lt_succ enough) ?_
      exact (List.mem_cons.mp ends).resolve_left fun isEof => stops (.inr isEof.symm)

theorem afterSkip_zero (kinds : List TokenKind) : afterSkip 0 kinds = kinds := by
  cases kinds <;> rfl

theorem afterSkip_suffix : ∀ (kinds : List TokenKind) (depth : Nat),
    afterSkip depth kinds <:+ kinds
  | [], _ => List.suffix_refl []
  | kind :: rest, 0 => ⟨[], afterSkip_zero (kind :: rest)⟩
  | kind :: rest, depth + 1 => by
    have further : ∀ depth, afterSkip depth rest <:+ kind :: rest := fun depth =>
      (afterSkip_suffix rest depth).trans (List.suffix_cons kind rest)
    cases kind with
    | eof => exact List.suffix_rfl
    | _ => exact further _

theorem mem_eof_of_tops {kinds : List TokenKind} {nodes : List (Node F)}
    (tops : Tops host kinds nodes) : .eof ∈ kinds := by
  induction tops with
  | eof rest => exact List.mem_cons_self
  | @node body rest _ _ _ _ _ _ inductionHypothesis =>
    exact List.mem_cons_of_mem _ (List.mem_append_right _ (List.mem_cons_of_mem _
      inductionHypothesis))
  | @skipped rest _ _ _ inductionHypothesis =>
    exact List.mem_cons_of_mem _ ((afterSkip_suffix rest 1).subset inductionHypothesis)
  | stray _ _ _ inductionHypothesis => exact List.mem_cons_of_mem _ inductionHypothesis

/-- A top level that is read as some nodes is read as them by the parser. -/
theorem parseTop_of_tops {kinds : List TokenKind} {more : List (Node F)}
    (tops : Tops host kinds more) : ∀ (fuel : Nat) (nodes : List (Node F)) (before : Parser),
    before.kinds = kinds → before.depth = 0 → kinds.length < fuel →
      ∃ after, parseTop host fuel nodes before = .ok (nodes ++ more) after := by
  induction tops with
  | eof rest =>
    rintro fuel nodes ⟨tokens, _⟩ isKinds rfl enough
    obtain ⟨less, rfl⟩ := Nat.exists_eq_add_one_of_ne_zero (Nat.ne_zero_of_lt enough)
    obtain ⟨tok, others, rfl, isEof, -⟩ := List.map_eq_cons_iff.mp isKinds
    rw [parseTop_cons, if_pos isEof, List.append_nil]
    exact ⟨_, rfl⟩
  | @node body rest node more flat isNode isWritten tops inductionHypothesis =>
    rintro fuel nodes ⟨tokens, _⟩ isKinds rfl enough
    obtain ⟨less, rfl⟩ := Nat.exists_eq_add_one_of_ne_zero (Nat.ne_zero_of_lt enough)
    obtain ⟨after, ran, isAfter, level⟩ := parseNode_of_writes flat isWritten isKinds rfl
    obtain ⟨tok, others, rfl, isOpen, -⟩ := List.map_eq_cons_iff.mp isKinds
    obtain ⟨last, ran'⟩ := inductionHypothesis less (nodes ++ [node]) after isAfter level
      (by rw [List.length_cons, List.length_append, List.length_cons] at enough; omega)
    refine ⟨last, ?_⟩
    rw [parseTop_cons, if_neg (by rw [isOpen]; simp), if_pos isOpen, isKinds, if_pos isNode,
      bind_ok ran, ran', List.append_assoc, List.singleton_append]
  | @skipped rest more notNode tops inductionHypothesis =>
    rintro fuel nodes ⟨tokens, _⟩ isKinds rfl enough
    obtain ⟨less, rfl⟩ := Nat.exists_eq_add_one_of_ne_zero (Nat.ne_zero_of_lt enough)
    obtain ⟨tok, others, rfl, isOpen, areOthers⟩ := List.map_eq_cons_iff.mp isKinds
    have inRest := (afterSkip_suffix rest 1).subset (mem_eof_of_tops tops)
    obtain ⟨between, ran⟩ := skipSexpLoop_run (others.length + 1) 1 others 0
      (Nat.lt_succ_self _) (by rw [areOthers]; exact inRest)
    obtain ⟨isAfter, level⟩ := skipSexpLoop_ok _ _ ran
    have isRest : between.kinds = afterSkip 1 rest := isAfter.trans (congrArg _ areOthers)
    obtain ⟨last, ran'⟩ := inductionHypothesis less nodes between isRest level
      ((afterSkip_suffix rest 1).length_le.trans_lt (Nat.lt_of_succ_lt_succ enough))
    refine ⟨last, ?_⟩
    rw [parseTop_cons, if_neg (by rw [isOpen]; simp), if_pos isOpen, isKinds, if_neg notNode,
      bind_ok ran, ran']
  | @stray kind rest more notEof notOpen tops inductionHypothesis =>
    rintro fuel nodes ⟨tokens, _⟩ isKinds rfl enough
    obtain ⟨less, rfl⟩ := Nat.exists_eq_add_one_of_ne_zero (Nat.ne_zero_of_lt enough)
    obtain ⟨tok, others, rfl, rfl, areOthers⟩ := List.map_eq_cons_iff.mp isKinds
    rw [parseTop_cons, if_neg notEof, if_neg notOpen]
    exact inductionHypothesis less nodes ⟨others, 0⟩ areOthers rfl (Nat.lt_of_succ_lt_succ enough)

/-! ### Texts one after the other -/

/-- A form whose round brackets are nested is skipped up to its end, and on as far as it has
opening square brackets. -/
theorem afterSkip_parens {inner : List TokenKind} (leveled : Leveled inner)
    (rest : List TokenKind) :
    afterSkip 1 (inner ++ .rParen :: rest) = afterSkip (inner.count .lBracket) rest := by
  rw [← Nat.zero_add 1, afterSkip_leveled leveled, Nat.zero_add]
  rfl

/-- Where brackets are left open, tokens whose round brackets are nested are skipped to the end
of the input. -/
theorem afterSkip_eof {kinds : List TokenKind} (leveled : Leveled kinds) (depth : Nat) :
    afterSkip (depth + 1) (kinds ++ [.eof]) = [.eof] := by
  rw [afterSkip_leveled leveled]
  rfl

theorem tops_eof {nodes : List (Node F)} (tops : Tops host [.eof] nodes) : nodes = [] := by
  generalize isKinds : [TokenKind.eof] = kinds at tops
  cases tops with
  | eof => rfl
  | node => cases (List.cons.inj isKinds).1
  | skipped => cases (List.cons.inj isKinds).1
  | stray notEof => exact absurd (List.cons.inj isKinds).1.symm notEof

theorem tops_other {kind : TokenKind} {rest : List TokenKind} {nodes : List (Node F)}
    (isLevel : kind.IsLevel) (notEof : kind ≠ .eof) (tops : Tops host (kind :: rest) nodes) :
    Tops host rest nodes := by
  generalize isKinds : kind :: rest = kinds at tops
  cases tops with
  | eof => exact absurd (List.cons.inj isKinds).1 notEof
  | node => exact absurd (List.cons.inj isKinds).1 isLevel.1
  | skipped => exact absurd (List.cons.inj isKinds).1 isLevel.1
  | stray _ _ tops => rwa [(List.cons.inj isKinds).2]

/-- A form is a node, or is skipped. -/
theorem tops_parens {inner rest : List TokenKind} {nodes : List (Node F)}
    (leveled : Leveled inner) (tops : Tops host (.lParen :: (inner ++ .rParen :: rest)) nodes) :
    (IsNodeForm (.lParen :: (inner ++ .rParen :: rest)) ∧ ∃ node more, nodes = node :: more ∧
      writes host (.lParen :: (inner ++ .rParen :: rest)) = some node ∧ Tops host rest more) ∨
    (¬ IsNodeForm (.lParen :: (inner ++ .rParen :: rest)) ∧
      Tops host (afterSkip (inner.count .lBracket) rest) nodes) := by
  generalize isKinds : TokenKind.lParen :: (inner ++ .rParen :: rest) = kinds at tops ⊢
  cases tops with
  | eof => cases (List.cons.inj isKinds).1
  | @node body rest' node more flat isNode isWritten tops =>
    have isBody := (List.cons.inj isKinds).2
    have sameRest : rest = rest' := by
      have closes := congrArg (afterClosing 0) isBody
      rwa [flat, afterClosing_leveled leveled, afterClosing, afterClosing] at closes
    exact .inl ⟨isNode, node, more, rfl, isWritten, sameRest ▸ tops⟩
  | skipped notNode tops =>
    rw [← (List.cons.inj isKinds).2, afterSkip_parens leveled] at tops
    exact .inr ⟨notNode, tops⟩
  | stray _ notOpen => exact absurd (List.cons.inj isKinds).1.symm notOpen

/-- A node comes before what follows its form. -/
theorem Tops.cons {inner rest other : List TokenKind} {node : Node F} {more : List (Node F)}
    (leveled : Leveled inner) (isNode : IsNodeForm (.lParen :: (inner ++ .rParen :: rest)))
    (isWritten : writes host (.lParen :: (inner ++ .rParen :: rest)) = some node)
    (tops : Tops host other more) :
    Tops host (.lParen :: (inner ++ .rParen :: other)) (node :: more) := by
  have flat : (⟨inner, 0, 0⟩ : Reading).Flat := afterClosing_leveled leveled
  exact .node flat (isNodeForm_form.mp isNode) (writes_form flat isWritten other) tops

/-- A text of which nothing runs over is read before the text that follows it. -/
theorem Tops.append {front back : List TokenKind} (leveled : Leveled front)
    {nodes' : List (Node F)} (topsBack : Tops host (back ++ [.eof]) nodes') :
    ∀ {nodes : List (Node F)}, Tops host (front ++ [.eof]) nodes →
      (∀ form ∈ topForms 0 (front ++ [.eof]), ¬ RunsOver form) →
        Tops host (front ++ (back ++ [.eof])) (nodes ++ nodes') := by
  induction leveled with
  | nil =>
    intro nodes tops _
    rw [tops_eof tops]
    exact topsBack
  | @other kind rest isLevel notEof _ inductionHypothesis =>
    intro nodes tops ends
    rw [List.cons_append, topForms_of_isLevel isLevel] at ends
    exact .stray notEof isLevel.1 (inductionHypothesis (tops_other isLevel notEof tops) ends)
  | @parens inner rest leveledInner _ _ inductionHypothesis =>
    intro nodes tops ends
    rw [List.cons_append, List.append_assoc, List.cons_append] at tops ends ⊢
    rw [topForms_parens leveledInner] at ends
    obtain ⟨endsHere, ends⟩ := List.forall_mem_cons.mp ends
    rcases tops_parens leveledInner tops with ⟨isNode, node, more, rfl, isWritten, tops⟩ |
      ⟨notNode, tops⟩
    · exact .cons leveledInner isNode isWritten (inductionHypothesis tops ends)
    · have noBracket : inner.count .lBracket = 0 := by
        by_contra some_
        exact endsHere ((runsOver_form leveledInner _).mpr ⟨notNode, Nat.pos_of_ne_zero some_⟩)
      rw [noBracket, afterSkip_zero] at tops
      refine .skipped (mt isNodeForm_form.mp notNode) ?_
      rw [afterSkip_parens leveledInner, noBracket, afterSkip_zero]
      exact inductionHypothesis tops ends

/-- A text of which a form runs over is read, and what follows it is not. -/
theorem Tops.swallow {front back : List TokenKind} (leveled : Leveled front)
    (leveledBack : Leveled back) : ∀ {nodes : List (Node F)}, Tops host (front ++ [.eof]) nodes →
      (∃ form ∈ topForms 0 (front ++ [.eof]), RunsOver form) →
        Tops host (front ++ (back ++ [.eof])) nodes := by
  induction leveled with
  | nil =>
    rintro nodes _ ⟨form, member, _⟩
    cases member
  | @other kind rest isLevel notEof _ inductionHypothesis =>
    intro nodes tops over_
    rw [List.cons_append, topForms_of_isLevel isLevel] at over_
    exact .stray notEof isLevel.1 (inductionHypothesis (tops_other isLevel notEof tops) over_)
  | @parens inner rest leveledInner leveledRest _ inductionHypothesis =>
    intro nodes tops over_
    rw [List.cons_append, List.append_assoc, List.cons_append] at tops over_ ⊢
    rw [topForms_parens leveledInner, List.exists_mem_cons_iff,
      runsOver_form leveledInner] at over_
    rcases tops_parens leveledInner tops with ⟨isNode, node, more, rfl, isWritten, tops⟩ |
      ⟨notNode, tops⟩
    · exact .cons leveledInner isNode isWritten
        (inductionHypothesis tops (over_.resolve_left fun here => here.1 isNode))
    · refine .skipped (mt isNodeForm_form.mp notNode) ?_
      rw [afterSkip_parens leveledInner]
      cases isCount : inner.count .lBracket with
      | zero =>
        rw [isCount, afterSkip_zero] at tops
        rw [afterSkip_zero]
        exact inductionHypothesis tops
          (over_.resolve_left fun here => absurd here.2 (by rw [isCount]; exact lt_irrefl 0))
      | succ depth =>
        -- the skipper is still inside where the text ends
        rw [isCount, afterSkip_eof leveledRest] at tops
        rw [← List.append_assoc, afterSkip_eof (leveledRest.append leveledBack)]
        exact tops

/-- A text has no node exactly if none of its forms is one before a form runs over. -/
theorem tops_eq_nil_iff {kinds : List TokenKind} (leveled : Leveled kinds) :
    ∀ {nodes : List (Node F)}, Tops host (kinds ++ [.eof]) nodes →
      (nodes = [] ↔ ∀ form ∈ reached (topForms 0 (kinds ++ [.eof])), ¬ IsNodeForm form) := by
  induction leveled with
  | nil =>
    intro nodes tops
    exact iff_of_true (tops_eof tops) fun _ member => absurd member List.not_mem_nil
  | @other kind rest isLevel notEof _ inductionHypothesis =>
    intro nodes tops
    rw [List.cons_append, topForms_of_isLevel isLevel]
    exact inductionHypothesis (tops_other isLevel notEof tops)
  | @parens inner rest leveledInner leveledRest _ inductionHypothesis =>
    intro nodes tops
    rw [List.cons_append, List.append_assoc, List.cons_append] at tops ⊢
    rw [topForms_parens leveledInner, reached, List.takeWhile_cons]
    rcases tops_parens leveledInner tops with ⟨isNode, node, more, rfl, isWritten, tops⟩ |
      ⟨notNode, tops⟩
    · have keeps : ¬ RunsOver (.lParen :: (inner ++ .rParen :: (rest ++ [.eof]))) :=
        fun over_ => over_.1 isNode
      rw [if_pos (decide_eq_true keeps)]
      exact iff_of_false (List.cons_ne_nil _ _)
        fun noNode => noNode _ List.mem_cons_self isNode
    · cases isCount : inner.count .lBracket with
      | zero =>
        have keeps : ¬ RunsOver (.lParen :: (inner ++ .rParen :: (rest ++ [.eof]))) := by
          rw [runsOver_form leveledInner, isCount]
          exact fun over_ => absurd over_.2 (lt_irrefl 0)
        rw [isCount, afterSkip_zero] at tops
        rw [if_pos (decide_eq_true keeps), List.forall_mem_cons, inductionHypothesis tops]
        exact (and_iff_right notNode).symm
      | succ depth =>
        have over_ : RunsOver (.lParen :: (inner ++ .rParen :: (rest ++ [.eof]))) := by
          rw [runsOver_form leveledInner, isCount]
          exact ⟨notNode, Nat.succ_pos depth⟩
        rw [isCount, afterSkip_eof leveledRest] at tops
        rw [if_neg (by simpa using over_)]
        exact iff_of_true (tops_eof tops) fun _ member => absurd member List.not_mem_nil

/-! ### The tokens of a text -/

/-- The kinds of the tokens of a text, before the end of the input. -/
def kindsOf (src : String) : List TokenKind :=
  match tokensOf src with
  | .ok tokens => (tokens.map (·.kind)).dropLast
  | .error _ => []

theorem lexes_of_tokensOf {src : String} {tokens : List Token} (read : tokensOf src = .ok tokens) :
    Lexes (Lexer.new src).src (kindsOf src) ∧ tokens.map (·.kind) = kindsOf src ++ [.eof] := by
  have isKinds : kindsOf src = (tokens.map (·.kind)).dropLast := by rw [kindsOf, read]
  unfold tokensOf tokenize at read
  cases ran : tokenizeLoop maxTokens ((Lexer.new src).src.length + 1) [] (Lexer.new src) with
  | error stop after =>
    simp only [ran] at read
    cases stop <;> cases read
  | ok tokens' after =>
    simp only [ran] at read
    split_ifs at read
    cases read
    obtain ⟨own, eof, rfl, isEof, lexes⟩ := lexes_of_tokenizeLoop _ _ [] ran
    rw [List.nil_append, List.map_append, List.map_singleton, List.dropLast_concat] at isKinds
    rw [isKinds, List.nil_append, List.map_append, List.map_singleton, isEof]
    exact ⟨lexes, rfl⟩

/-- The lexer reads the tokens of a text, if the limit admits them. -/
theorem tokenizeLoop_new {src : String} {kinds : List TokenKind}
    (lexes : Lexes (Lexer.new src).src kinds) {limit : Nat} (fits : kinds.length ≤ limit) :
    ∃ own eof after, tokenizeLoop limit ((Lexer.new src).src.length + 1) [] (Lexer.new src) =
      .ok (own ++ [eof]) after ∧ own.map (·.kind) = kinds ∧ eof.kind = .eof :=
  tokenizeLoop_of_lexes lexes _ [] (Lexer.new src) rfl (Nat.lt_succ_self _)
    (by rwa [List.length_nil, Nat.zero_add])

theorem tokenCount_of_lexes {src : String} {kinds : List TokenKind}
    (lexes : Lexes (Lexer.new src).src kinds) : tokenCount src = some kinds.length := by
  obtain ⟨own, eof, after, ran, areKinds, -⟩ := tokenizeLoop_new lexes lexes.length_le
  unfold tokenCount
  simp only [ran]
  rw [List.length_append, List.length_singleton, Nat.add_sub_cancel, ← areKinds, List.length_map]

theorem tokensOf_of_lexes {src : String} {kinds : List TokenKind}
    (lexes : Lexes (Lexer.new src).src kinds) (few : kinds.length < maxTokens) :
    ∃ tokens, tokensOf src = .ok tokens ∧ tokens.map (·.kind) = kinds ++ [.eof] := by
  obtain ⟨own, eof, after, ran, areKinds, isEof⟩ := tokenizeLoop_new lexes few.le
  refine ⟨own ++ [eof], ?_, by rw [List.map_append, areKinds, List.map_singleton, isEof]⟩
  have length : ¬ maxTokens < (own ++ [eof]).length := by
    have count := congrArg List.length areKinds
    rw [List.length_map] at count
    rw [List.length_append, List.length_singleton]
    omega
  unfold tokensOf tokenize
  simp only [ran]
  rw [if_neg length]

theorem formsOf_of_tokensOf {src : String} {tokens : List Token}
    (read : tokensOf src = .ok tokens) : formsOf src = topForms 0 (kindsOf src ++ [.eof]) := by
  rw [← (lexes_of_tokensOf read).2, formsOf, read]

/-- A text that is read has tokens, and its top level is read as its nodes. -/
theorem tops_of_parse {src : String} {nodes : List (Node F)} (parsed : parse host src = .ok nodes) :
    ∃ tokens, tokensOf src = .ok tokens ∧ Tops host (kindsOf src ++ [.eof]) nodes := by
  unfold parse at parsed
  cases read : tokensOf src with
  | error stop =>
    rw [read] at parsed
    cases parsed
  | ok tokens =>
    rw [read] at parsed
    obtain ⟨after, ran⟩ := answer_eq_ok.mp parsed
    obtain ⟨more, rfl, tops⟩ := tops_of_parseTop _ [] rfl ran
    rw [← (lexes_of_tokensOf read).2]
    exact ⟨tokens, rfl, tops⟩

theorem parse_of_tops {src : String} {kinds : List TokenKind} {nodes : List (Node F)}
    (lexes : Lexes (Lexer.new src).src kinds) (few : kinds.length < maxTokens)
    (tops : Tops host (kinds ++ [.eof]) nodes) : parse host src = .ok nodes := by
  obtain ⟨tokens, read, areKinds⟩ := tokensOf_of_lexes lexes few
  rw [← areKinds] at tops
  obtain ⟨after, ran⟩ := parseTop_of_tops tops (tokens.length + 1) [] ⟨tokens, 0⟩ rfl rfl
    (by rw [List.length_map]; exact Nat.lt_succ_self _)
  unfold parse
  rw [read]
  exact answer_eq_ok.mpr ⟨after, ran⟩

/-! ### A form between two texts -/

/-- The brackets of a text are properly nested, and the text leaves no `#date(` or `#dur(`
open. -/
structure NestedText (src : String) : Prop where
  nested : Nested (kindsOf src)
  notOpen : (Lexer.new src).src.foldl next .gap ≠ .form

/-- A text that is one form and no node. -/
structure SkippedForm (src : String) : Prop extends NestedText src where
  isForm : ∃ inner, Nested inner ∧ kindsOf src = .lParen :: (inner ++ [.rParen])
  notNode : ¬ IsNodeForm (kindsOf src)

theorem new_joined (front back : String) : (Lexer.new (front ++ "\n" ++ back)).src =
    (Lexer.new front).src ++ newline :: (Lexer.new back).src := by
  simp only [Lexer.new, String.toList_append, Utf8.bytes_append, List.append_assoc]
  rfl

theorem SkippedForm.read {src : String} (skipped : SkippedForm src) :
    ∃ tokens, tokensOf src = .ok tokens := by
  obtain ⟨inner, -, isForm⟩ := skipped.isForm
  cases read : tokensOf src with
  | ok tokens => exact ⟨tokens, rfl⟩
  | error stop =>
    rw [kindsOf, read] at isForm
    cases isForm

/-- A form that is no node yields none. -/
theorem SkippedForm.tops {src : String} (skipped : SkippedForm src) :
    Tops host (kindsOf src ++ [.eof]) [] := by
  obtain ⟨inner, nested, isForm⟩ := skipped.isForm
  have notNode := skipped.notNode
  rw [isForm] at notNode ⊢
  rw [List.cons_append, List.append_assoc, List.singleton_append]
  refine .skipped (mt isNodeForm_form.mp notNode) ?_
  rw [afterSkip_parens nested.leveled]
  cases inner.count .lBracket <;> exact .eof []

/-- Tokens that are read, tokens of which no node is read and other tokens are read as the two
exactly if nothing before the others has the skipper run over, or they have no node. -/
theorem tops_around {front form back : List TokenKind} (leveled : Leveled front)
    (leveledForm : Leveled form) (leveledBack : Leveled back) {nodes nodes' : List (Node F)}
    (tops : Tops host (front ++ [.eof]) nodes) (topsForm : Tops host (form ++ [.eof]) [])
    (topsBack : Tops host (back ++ [.eof]) nodes') :
    ∃ more, Tops host (front ++ (form ++ (back ++ [.eof]))) more ∧ (more = nodes ++ nodes' ↔
      (∀ each ∈ topForms 0 (front ++ [.eof]) ++ topForms 0 (form ++ [.eof]), ¬ RunsOver each) ∨
        ∀ each ∈ reached (topForms 0 (back ++ [.eof])), ¬ IsNodeForm each) := by
  have noneLost := tops_eq_nil_iff leveledBack topsBack
  rw [List.forall_mem_append]
  by_cases overFront : ∃ each ∈ topForms 0 (front ++ [.eof]), RunsOver each
  · have notAll : ¬ ∀ each ∈ topForms 0 (front ++ [.eof]), ¬ RunsOver each := by
      simpa using overFront
    have swallowed := Tops.swallow leveled (leveledForm.append leveledBack) tops overFront
    rw [List.append_assoc] at swallowed
    refine ⟨nodes, swallowed, ?_⟩
    rw [or_iff_right (not_and_of_not_left _ notAll), List.self_eq_append_right, noneLost]
  · have allFront : ∀ each ∈ topForms 0 (front ++ [.eof]), ¬ RunsOver each := by
      simpa using overFront
    by_cases overForm : ∃ each ∈ topForms 0 (form ++ [.eof]), RunsOver each
    · have notAll : ¬ ∀ each ∈ topForms 0 (form ++ [.eof]), ¬ RunsOver each := by
        simpa using overForm
      have swallowed := Tops.swallow leveledForm leveledBack topsForm overForm
      rw [← List.append_assoc] at swallowed
      have joined := Tops.append leveled swallowed tops allFront
      rw [List.append_nil, List.append_assoc] at joined
      refine ⟨nodes, joined, ?_⟩
      rw [or_iff_right (not_and_of_not_right _ notAll), List.self_eq_append_right, noneLost]
    · have allForm : ∀ each ∈ topForms 0 (form ++ [.eof]), ¬ RunsOver each := by
        simpa using overForm
      have passed := Tops.append leveledForm topsBack topsForm allForm
      rw [← List.append_assoc] at passed
      have joined := Tops.append leveled passed tops allFront
      rw [List.append_assoc] at joined
      exact ⟨nodes ++ nodes', joined, iff_of_true rfl (.inl ⟨allFront, allForm⟩)⟩

/-- A text, a form that is skipped and another text on lines of their own are read as the two
texts exactly if nothing of the first text and of the form has the skipper run over, or if the
other text has no node to lose. -/
theorem parse_around_iff {front form back : String} {nodes nodes' : List (Node F)}
    (parsed : parse host front = .ok nodes) (nested : NestedText front)
    (skipped : SkippedForm form)
    (parsed' : parse host back = .ok nodes') (nested' : NestedText back)
    (few : ∀ count, tokenCount (front ++ "\n" ++ form ++ "\n" ++ back) = some count →
      count < maxTokens) :
    parse host (front ++ "\n" ++ form ++ "\n" ++ back) = .ok (nodes ++ nodes') ↔
      (∀ each ∈ formsOf front ++ formsOf form, ¬ RunsOver each) ∨
        ∀ each ∈ reached (formsOf back), ¬ IsNodeForm each := by
  obtain ⟨tokens, read, tops⟩ := tops_of_parse parsed
  obtain ⟨tokens', read', tops'⟩ := tops_of_parse parsed'
  obtain ⟨tokensForm, readForm⟩ := skipped.read
  have lexes : Lexes (Lexer.new (front ++ "\n" ++ form ++ "\n" ++ back)).src
      (kindsOf front ++ (kindsOf form ++ kindsOf back)) := by
    have joined := (lexes_of_tokensOf readForm).1.join (closed_gap _) skipped.notOpen
      (lexes_of_tokensOf read').1
    rw [new_joined, new_joined, List.append_assoc, List.cons_append]
    exact (lexes_of_tokensOf read).1.join (closed_gap _) nested.notOpen joined
  obtain ⟨more, topsMore, same⟩ := tops_around nested.nested.leveled skipped.nested.leveled
    nested'.nested.leveled tops skipped.tops tops'
  rw [parse_of_tops lexes (few _ (tokenCount_of_lexes lexes))
      (by rwa [List.append_assoc, List.append_assoc]),
    formsOf_of_tokensOf read, formsOf_of_tokensOf readForm, formsOf_of_tokensOf read',
    Except.ok.injEq, same]

end Parser

namespace Tenths

/-- A node with a predicate of no arguments. -/
def bare : Node Tenths := .new "a" ⟨.name "p", [], []⟩

theorem isPlain_symbol (name : String) : (TokenKind.symbol name).IsPlain := by
  simp [TokenKind.IsPlain]

theorem nested_bare : Parser.NestedText "(node a :pred (p))" where
  nested := by
    have areKinds : Parser.kindsOf "(node a :pred (p))" = .lParen :: ([.symbol "node",
        .symbol "a", .keyword "pred", .lParen, .symbol "p", .rParen] ++ [.rParen]) := by
      decide +kernel
    have isKeyword : (TokenKind.keyword "pred").IsPlain := by simp [TokenKind.IsPlain]
    have pred : Nested [.lParen, .symbol "p", .rParen] :=
      .parens (nested_singleton (isPlain_symbol "p") nofun) .nil
    rw [areKinds]
    exact .parens (.plain (isPlain_symbol _) nofun (.plain (isPlain_symbol _) nofun
      (.plain isKeyword nofun pred))) .nil
  notOpen := by decide +kernel

theorem nested_empty : Parser.NestedText "" where
  nested := by
    have noKinds : Parser.kindsOf "" = [] := by decide +kernel
    rw [noKinds]
    exact .nil
  notOpen := by decide +kernel

/-- A form of a name and an argument is skipped, with or without an opening bracket in it. -/
theorem skipped_rule {src : String} {argument : List TokenKind} (nested : Nested argument)
    (areKinds : Parser.kindsOf src = .lParen :: ((.symbol "rule" :: argument) ++ [.rParen]))
    (notOpen : (Lexer.new src).src.foldl next .gap ≠ .form) : Parser.SkippedForm src where
  nested := by
    rw [areKinds]
    exact .parens (.plain (isPlain_symbol _) nofun nested) .nil
  notOpen := notOpen
  isForm := ⟨_, .plain (isPlain_symbol _) nofun nested, areKinds⟩
  notNode := by
    rw [areKinds]
    simp [IsNodeForm]

/-- A node is lost after a form with a list. -/
theorem bare_lost :
    Parser.parse host "" = .ok [] ∧ Parser.NestedText "" ∧ Parser.SkippedForm "(rule [x])" ∧
    Parser.parse host "(node a :pred (p))" = .ok [bare] ∧
    Parser.NestedText "(node a :pred (p))" ∧
    tokenCount ("" ++ "\n" ++ "(rule [x])" ++ "\n" ++ "(node a :pred (p))") = some 14 ∧
    Parser.parse host ("" ++ "\n" ++ "(rule [x])" ++ "\n" ++ "(node a :pred (p))") = .ok [] ∧
    Parser.parse host ("" ++ "\n" ++ "(rule [x])" ++ "\n" ++ "(node a :pred (p))") ≠
      .ok ([] ++ [bare]) :=
  ⟨by decide +kernel, nested_empty,
    skipped_rule (.brackets (nested_singleton (isPlain_symbol "x") nofun) .nil)
      (by decide +kernel) (by decide +kernel),
    by decide +kernel, nested_bare, by decide +kernel, by decide +kernel, by decide +kernel⟩

/-- It is kept after one without. -/
theorem bare_kept :
    Parser.parse host ("" ++ "\n" ++ "(rule x)" ++ "\n" ++ "(node a :pred (p))") =
      .ok ([] ++ [bare]) := by
  have counted : tokenCount ("" ++ "\n" ++ "(rule x)" ++ "\n" ++ "(node a :pred (p))") =
      some 12 := by decide +kernel
  have few : ∀ count, tokenCount ("" ++ "\n" ++ "(rule x)" ++ "\n" ++ "(node a :pred (p))") =
      some count → count < maxTokens := by
    intro count isCount
    rw [counted] at isCount
    rw [← Option.some.inj isCount]
    decide
  exact (Parser.parse_around_iff (by decide +kernel) nested_empty
    (skipped_rule (nested_singleton (isPlain_symbol "x") nofun) (by decide +kernel)
      (by decide +kernel)) (by decide +kernel) nested_bare few).mpr
    (.inl (by decide +kernel))

end Tenths

end Factum
