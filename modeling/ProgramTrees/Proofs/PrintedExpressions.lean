import ProgramTrees.Proofs.Lexing
import ProgramTrees.Proofs.Parser
import ProgramTrees.Proofs.Subterms

namespace ProgramTrees

/-- The level at which the text of an expression stands without parentheses. -/
def Node.level {τ : Type} : Node τ → Nat
  | .apply _ op _ => op.precedence
  | .assign .. => 0
  | _ => tightest

/-- An expression whose own parts can be written: a name that is a name, a literal that is finite,
and as many operands as the operator takes. -/
def Node.isWritable {τ : Type} : Node τ → Bool
  | .float _ x => x.isFinite
  | .var _ name | .assign _ name _ => isName name
  | .apply _ op operands => operands.length = op.arity
  | _ => true

theorem Operator.operandLevel_le (op : Operator) (side : Side) :
    op.operandLevel side ≤ tightest := by
  cases op <;> cases side <;> decide

/-- Parentheses are left out exactly where the grammar takes the inner operation as an operand. -/
theorem needsParentheses_eq_false {outer inner : Operator} {side : Side} :
    needsParentheses outer inner side = false ↔ outer.operandLevel side ≤ inner.precedence := by
  unfold needsParentheses Operator.operandLevel
  generalize outer.associativity = associativity
  rcases Nat.lt_trichotomy inner.precedence outer.precedence with hlt | heq | hgt
  · rw [if_neg (by omega), if_neg (by omega)]
    cases associativity <;> cases side <;> simp <;> omega
  · rw [if_neg (by omega), if_pos heq]
    cases associativity <;> cases side <;> simp <;> omega
  · rw [if_pos hgt]
    cases associativity <;> cases side <;> simp <;> omega

theorem Node.needsParentheses_eq_false {e : Program} {outer : Operator} {side : Side}
    (h : e.needsParentheses outer side = false) : outer.operandLevel side ≤ e.level := by
  have hle := outer.operandLevel_le side
  cases e with
  | apply _ inner _ => exact ProgramTrees.needsParentheses_eq_false.mp h
  | assign => exact nomatch h
  | int | float | var | sequence | declare | print | loop => exact hle

/-- A text consists of legible lexemes with blanks between them that make the expression at a
level. -/
def Spells (text : String) (level : Nat) (e : Program) : Prop :=
  ∃ lexemes, ' ' :: text.toList = spaced lexemes ∧ (∀ l ∈ lexemes, l.isLegible = true) ∧
    Derives level lexemes e

section Texts

variable {text left right : String} {level : Nat} {e l r : Program} {op : Operator}

theorem Derives.looser {lexemes : List Lexeme} {level' : Nat} (h : Derives level lexemes e)
    (hle : level' ≤ level) : Derives level' lexemes e := by
  induction hle with
  | refl => exact h
  | step _ ih => exact ih h.tighter

theorem Spells.looser {level' : Nat} (h : Spells text level e) (hle : level' ≤ level) :
    Spells text level' e := by
  obtain ⟨lexemes, htext, hlegible, hderives⟩ := h
  exact ⟨lexemes, htext, hlegible, hderives.looser hle⟩

theorem spells_lexeme {lexeme : Lexeme} (hlegible : lexeme.isLegible = true)
    (h : Derives level [lexeme] e) : Spells lexeme.spelling level e :=
  ⟨[lexeme], by simp [spaced], by simpa using hlegible, h⟩

theorem Spells.parenthesize (h : Spells text 0 e) :
    Spells (parenthesize text) tightest e := by
  obtain ⟨lexemes, htext, hlegible, hderives⟩ := h
  refine ⟨.mark '(' :: lexemes ++ [.mark ')'], ?_, ?_, .parentheses hderives⟩
  · have hspaced : spaced (.mark '(' :: lexemes ++ [.mark ')']) =
        [' ', '('] ++ spaced lexemes ++ [' ', ')'] := by
      simp [spaced, Lexeme.spelling]
    rw [hspaced, ← htext]
    simp [ProgramTrees.parenthesize]
  · simpa [Lexeme.isLegible, marks, or_imp, forall_and] using hlegible

theorem Spells.asOperand (h : Spells text e.level e) (op : Operator) (side : Side) :
    Spells (e.asOperand op side text) (op.operandLevel side) e := by
  unfold Node.asOperand
  split
  next => exact (h.looser (Nat.zero_le _)).parenthesize.looser (op.operandLevel_le side)
  next hneeds =>
    exact h.looser (Node.needsParentheses_eq_false (Bool.not_eq_true _ ▸ hneeds))

theorem Operator.mark_legible (op : Operator) : (Lexeme.mark op.mark).isLegible = true := by
  cases op <;> rfl

theorem Operator.symbol_eq (op : Operator) : op.symbol = String.singleton op.mark := by
  cases op <;> rfl

theorem Spells.sign (harity : op.arity = 1) (h : Spells text (op.operandLevel .right) e) :
    Spells (op.symbol ++ " " ++ text) op.precedence (.apply () op [e]) := by
  obtain ⟨lexemes, htext, hlegible, hderives⟩ := h
  refine ⟨.mark op.mark :: lexemes, ?_, ?_, .sign harity hderives⟩
  · have hspaced : spaced (.mark op.mark :: lexemes) = [' ', op.mark] ++ spaced lexemes := by
      simp [spaced, Lexeme.spelling]
    rw [hspaced, ← htext, op.symbol_eq]
    simp
  · exact List.forall_mem_cons.mpr ⟨op.mark_legible, hlegible⟩

theorem spaced_binary {before after : List Lexeme} (op : Operator)
    (hleft : ' ' :: left.toList = spaced before) (hright : ' ' :: right.toList = spaced after) :
    ' ' :: (left ++ " " ++ op.symbol ++ " " ++ right).toList =
      spaced (before ++ .mark op.mark :: after) := by
  have hspaced : spaced (before ++ .mark op.mark :: after) =
      spaced before ++ [' ', op.mark] ++ spaced after := by
    simp [spaced, Lexeme.spelling]
  rw [hspaced, ← hleft, ← hright, op.symbol_eq]
  simp

theorem spaced_assign {lexemes : List Lexeme} (name : String)
    (htext : ' ' :: text.toList = spaced lexemes) :
    ' ' :: (name ++ " = " ++ text).toList = spaced (.name name :: .mark '=' :: lexemes) := by
  have hspaced : spaced (.name name :: .mark '=' :: lexemes) =
      ' ' :: (name.toList ++ [' ', '='] ++ spaced lexemes) := by
    simp [spaced, Lexeme.spelling]
  rw [hspaced, ← htext]
  simp

theorem Spells.binary (harity : op.arity = 2) (hl : Spells left (op.operandLevel .left) l)
    (hr : Spells right (op.operandLevel .right) r) :
    Spells (left ++ " " ++ op.symbol ++ " " ++ right) op.precedence (.apply () op [l, r]) := by
  obtain ⟨before, hleft, hbefore, hl⟩ := hl
  obtain ⟨after, hright, hafter, hr⟩ := hr
  refine ⟨before ++ .mark op.mark :: after, spaced_binary op hleft hright, ?_,
    .binary harity hl hr⟩
  exact List.forall_mem_append.mpr
    ⟨hbefore, List.forall_mem_cons.mpr ⟨op.mark_legible, hafter⟩⟩

theorem Spells.assign {name : String} (hname : isName name = true) (h : Spells text 0 e) :
    Spells (name ++ " = " ++ text) 0 (.assign () name e) := by
  obtain ⟨lexemes, htext, hlegible, hderives⟩ := h
  refine ⟨.name name :: .mark '=' :: lexemes, spaced_assign name htext, ?_, .assign hderives⟩
  exact List.forall_mem_cons.mpr ⟨hname, List.forall_mem_cons.mpr ⟨rfl, hlegible⟩⟩

end Texts

/-- Every writable expression is spelled by its source text, at its level. -/
theorem source_spells {e : Program} (he : IsExpr e)
    (hwritable : ∀ n ∈ e.subterms, n.isWritable = true) (style : SourceStyle) (depth : Nat) :
    Spells (e.source style depth) e.level e := by
  have hself := hwritable e (Node.self_mem_subterms e)
  induction he with
  | int tag n =>
    have hlegible : (Lexeme.int n).isLegible = true := rfl
    exact spells_lexeme hlegible (.int n)
  | float tag x =>
    have hlegible : (Lexeme.float x).isLegible = true := hself
    exact spells_lexeme hlegible (.float x)
  | var tag name =>
    have hlegible : (Lexeme.name name).isLegible = true := hself
    exact spells_lexeme hlegible (.name name)
  | @apply tag op operands _ ih =>
    have hlength : operands.length = op.arity := of_decide_eq_true hself
    have hbelow : ∀ e ∈ operands, Spells (e.source style depth) e.level e := by
      intro e he
      have hsub : ∀ n ∈ e.subterms, n.isWritable = true :=
        fun n hn => hwritable n (Node.mem_subterms_of_child he hn)
      exact ih e he hsub (hsub e (Node.self_mem_subterms e))
    match operands, hlength with
    | [], h => cases op <;> exact nomatch h
    | [e], h =>
      have hoperand := (hbelow e (by simp)).asOperand op .right
      exact hoperand.sign h.symm
    | [l, r], h =>
      have hleft := (hbelow l (by simp)).asOperand op .left
      have hright := (hbelow r (by simp)).asOperand op .right
      exact hleft.binary h.symm hright
    | _ :: _ :: _ :: _, h => cases op <;> exact nomatch h
  | @assign tag name value _ ih =>
    have hsub : ∀ n ∈ value.subterms, n.isWritable = true :=
      fun n hn => hwritable n (Node.mem_subterms_of_child (by simp [Node.children]) hn)
    have hvalue := ih hsub (hsub value (Node.self_mem_subterms value))
    exact (hvalue.looser (Nat.zero_le _)).assign hself

/-- The source text of a writable expression is read back as that expression, and the grammar
derives no other from it. -/
theorem source_reads_back {e : Program} (he : IsExpr e)
    (hwritable : ∀ n ∈ e.subterms, n.isWritable = true) (style : SourceStyle) (depth : Nat) :
    ∃ lexemes, lexemes? (e.source style depth) = some lexemes ∧ Derives 0 lexemes e ∧
      (∀ e', Derives 0 lexemes e' → e' = e) ∧ readExpression? lexemes = some e := by
  obtain ⟨lexemes, htext, hlegible, hderives⟩ :=
    (source_spells he hwritable style depth).looser (Nat.zero_le _)
  exact ⟨lexemes, lexemes?_of_spaced hlegible htext, hderives, fun _ h => h.unique hderives,
    readExpression?_eq_some_iff.mpr hderives⟩

/-- Signs in front of a negative literal, assignments in an operand, and a difference on the side
away from which differences group. -/
def signsAndSums : Program :=
  .apply () .minus2 [
    .apply () .minus1 [.apply () .plus2 [.apply () .minus1 [.int () (-7)], .var () "i"]],
    .apply () .minus2 [
      .assign () "i" (.assign () "j" (.float () (Decimal.round .double true ⟨25, -1⟩))),
      .apply () .mod [.apply () .mult [.int () 2, .var () "j"], .int () 3]]]

theorem signsAndSums_reads_back :
    IsExpr signsAndSums ∧ (∀ n ∈ signsAndSums.subterms, n.isWritable = true) ∧
      signsAndSums.source {} 0 = "- ( - -7 + i ) - ( ( i = j = -2.5f ) - 2 * j % 3 )" ∧
      ∃ lexemes, lexemes? (signsAndSums.source {} 0) = some lexemes ∧
        Derives 0 lexemes signsAndSums ∧ (∀ e', Derives 0 lexemes e' → e' = signsAndSums) ∧
        readExpression? lexemes = some signsAndSums := by
  have hnegated : IsExpr (.apply () .minus1 [.apply () .plus2 [.apply () .minus1 [.int () (-7)],
      .var () "i"]]) :=
    .single () .minus1 (.pair () .plus2 (.single () .minus1 (.int () (-7))) (.var () "i"))
  have he : IsExpr signsAndSums :=
    .pair () .minus2 hnegated (.pair () .minus2 (.assign () "i" (.assign () "j" (.float () _)))
      (.pair () .mod (.pair () .mult (.int () 2) (.var () "j")) (.int () 3)))
  have hwritable : ∀ n ∈ signsAndSums.subterms, n.isWritable = true := by
    refine List.all_eq_true.mp ?_
    decide +kernel
  have htext : signsAndSums.source {} 0 = "- ( - -7 + i ) - ( ( i = j = -2.5f ) - 2 * j % 3 )" := by
    decide +kernel
  exact ⟨he, hwritable, htext, source_reads_back he hwritable {} 0⟩

end ProgramTrees
