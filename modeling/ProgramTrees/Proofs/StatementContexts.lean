import ProgramTrees.Proofs.SourceCharacters
import ProgramTrees.Proofs.TextLiterals

namespace ProgramTrees

/-- The text literal in front of an argument, and the lexemes after it. -/
def argumentLexemes? (argument : String) : Option (String × List Lexeme) :=
  (textLiteral? argument.toList).bind fun (text, rest) =>
    (lexemes? (String.ofList rest)).map (text, ·)

/-- The lexemes before and after the sign `>=` of a test. -/
def testLexemes? (test : String) : Option (List Lexeme × List Lexeme) :=
  match test.toList.dropWhile (· ≠ '>') with
  | '>' :: '=' :: after =>
    (lexemes? (String.ofList (test.toList.takeWhile (· ≠ '>')))).bind fun before =>
      (lexemes? (String.ofList after)).map (before, ·)
  | _ => none

inductive Test where
  | atLeast (left right : Program)
  | assign (name : String) (test : Test)

/-- The grammar of tests with one `>=`, which binds looser than sums and tighter than assignments:
the lexemes before it and after it make a test. -/
inductive DerivesTest : List Lexeme → List Lexeme → Test → Prop where
  | atLeast {before after : List Lexeme} {l r : Program} : Derives 1 before l →
      Derives 1 after r → DerivesTest before after (.atLeast l r)
  | assign {name : String} {before after : List Lexeme} {test : Test} :
      DerivesTest before after test →
      DerivesTest (.name name :: .mark '=' :: before) after (.assign name test)

theorem Derives.not_assign {level : Nat} {name : String} {lexemes : List Lexeme} {e : Program}
    (h : Derives level (.name name :: .mark '=' :: lexemes) e) : level = 0 := by
  by_contra hlevel
  have hnone : assignmentAt? (.name name :: .mark '=' :: lexemes ++ []) = none :=
    h.assignmentAt?_eq_none hlevel nofun
  exact nomatch hnone

theorem DerivesTest.unique {before after : List Lexeme} {test test' : Test}
    (h : DerivesTest before after test) (h' : DerivesTest before after test') : test = test' := by
  induction h generalizing test' with
  | atLeast hl hr =>
    cases h' with
    | atLeast hl' hr' => rw [hl.tighter.unique hl'.tighter, hr.tighter.unique hr'.tighter]
    | assign => exact nomatch hl.not_assign
  | assign _ ih =>
    cases h' with
    | atLeast hl' => exact nomatch hl'.not_assign
    | assign h' => rw [ih h']

namespace Node

/-- What a sum of a word and an expression without parentheses is: the word joins the leftmost
summand. -/
def joined (word : String) : Program → Program
  | .apply _ op [l, r] =>
    if op.precedence = 1 then .apply () op [l.joined word, r]
    else .apply () .plus2 [.var () word, .apply () op [l, r]]
  | e => .apply () .plus2 [.var () word, e]

/-- What the test of an expression without parentheses is: the value of its assignments is
tested. -/
def tested : Program → Test
  | .assign _ name value => .assign name value.tested
  | e => .atLeast e (.int () 0)

end Node

section Sums

variable {word text left right : String} {e l r : Program} {op : Operator}

/-- A word, the sign of a sum and the lexemes of a text make the expression. -/
def JoinsAs (word text : String) (e : Program) : Prop :=
  ∃ lexemes, ' ' :: text.toList = spaced lexemes ∧ (∀ l ∈ lexemes, l.isLegible = true) ∧
    Derives 1 (.name word :: .mark '+' :: lexemes) e

theorem JoinsAs.of_spells (h : Spells text 2 e) :
    JoinsAs word text (.apply () .plus2 [.var () word, e]) := by
  obtain ⟨lexemes, htext, hlegible, hderives⟩ := h
  have hword : Derives (Operator.operandLevel .plus2 .left) [.name word] (.var () word) :=
    (Derives.name word).looser (by decide)
  exact ⟨lexemes, htext, hlegible, .binary rfl hword hderives⟩

theorem JoinsAs.binary (hprecedence : op.precedence = 1) (hl : JoinsAs word left l)
    (hr : Spells right (op.operandLevel .right) r) :
    JoinsAs word (left ++ " " ++ op.symbol ++ " " ++ right) (.apply () op [l, r]) := by
  obtain ⟨before, hleft, hbefore, hl⟩ := hl
  obtain ⟨after, hright, hafter, hr⟩ := hr
  have harity : op.arity = 2 := by
    revert hprecedence
    cases op <;> decide
  have hlevel : op.operandLevel .left = 1 :=
    (Operator.binary_levels harity).2.2.1.trans hprecedence
  refine ⟨before ++ .mark op.mark :: after, spaced_binary op hleft hright, ?_, ?_⟩
  · exact List.forall_mem_append.mpr
      ⟨hbefore, List.forall_mem_cons.mpr ⟨op.mark_legible, hafter⟩⟩
  · have hderives : Derives op.precedence
        ((.name word :: .mark '+' :: before) ++ .mark op.mark :: after) (.apply () op [l, r]) :=
      .binary harity (hlevel ▸ hl) hr
    rwa [hprecedence] at hderives

theorem asOperand_of_le {side : Side} (hlevel : e.level ≠ 0)
    (h : op.operandLevel side ≤ e.level) : e.asOperand op side text = text := by
  have hfalse : e.needsParentheses op side = false := by
    cases e with
    | apply => exact needsParentheses_eq_false.mpr h
    | assign => exact absurd rfl hlevel
    | int | float | var | sequence | declare | print | loop => rfl
  rw [Node.asOperand, hfalse]
  rfl

theorem IsExpr.eq_assign (he : IsExpr e) (hlevel : e.level = 0) :
    ∃ tag name value, e = .assign tag name value := by
  cases he with
  | int | float | var => exact nomatch hlevel
  | @apply tag op operands => cases op <;> exact nomatch hlevel
  | assign tag name _ => exact ⟨tag, name, _, rfl⟩

theorem source_joins (he : IsExpr e) (hwritable : ∀ n ∈ e.subterms, n.isWritable = true)
    (hlevel : e.level ≠ 0) (word : String) (style : SourceStyle) (depth : Nat) :
    JoinsAs word (e.source style depth) (e.joined word) := by
  have hspells := source_spells he hwritable style depth
  have htight (h : 2 ≤ e.level) :
      JoinsAs word (e.source style depth) (.apply () .plus2 [.var () word, e]) :=
    .of_spells (hspells.looser h)
  induction he with
  | int | float | var => exact htight (show 2 ≤ tightest by decide)
  | @apply tag op operands hoperands ih =>
    have hlength : operands.length = op.arity :=
      of_decide_eq_true (hwritable _ (Node.self_mem_subterms _))
    match operands, hlength with
    | [], h => cases op <;> exact nomatch h
    | [e], h =>
      refine htight ?_
      rw [Node.level, (Operator.sign_levels h.symm).1]
      decide
    | [l, r], h =>
      obtain ⟨hlt, hpos, hleft, -⟩ := Operator.binary_levels h.symm
      rw [Node.joined]
      split
      next hprecedence =>
        have hbelow : ∀ e ∈ [l, r], ∀ n ∈ e.subterms, n.isWritable = true :=
          fun e he n hn => hwritable n (Node.mem_subterms_of_child he hn)
        have hr := (source_spells (hoperands r (by simp)) (hbelow r (by simp)) style depth).asOperand
          op .right
        have hl := source_spells (hoperands l (by simp)) (hbelow l (by simp)) style depth
        refine .binary hprecedence ?_ hr
        by_cases hassign : l.level = 0
        · obtain ⟨tag, name, value, rfl⟩ := (hoperands l (by simp)).eq_assign hassign
          exact .of_spells ((hl.looser (Nat.zero_le _)).parenthesize.looser (by decide))
        · rw [asOperand_of_le hassign (by omega)]
          exact ih l (by simp) (hbelow l (by simp)) hassign hl fun h => .of_spells (hl.looser h)
      next hprecedence => exact htight (show 2 ≤ op.precedence by omega)
    | _ :: _ :: _ :: _, h => cases op <;> exact nomatch h
  | assign => exact absurd rfl hlevel

theorem joined_eq_iff (he : IsExpr e) (hwritable : ∀ n ∈ e.subterms, n.isWritable = true)
    (word : String) (hlevel : e.level ≠ 0) :
    e.joined word = .apply () .plus2 [.var () word, e] ↔ 2 ≤ e.level := by
  cases he with
  | int | float | var => exact iff_of_true rfl (show 2 ≤ tightest by decide)
  | assign => exact absurd rfl hlevel
  | @apply tag op operands =>
    have hlength : operands.length = op.arity :=
      of_decide_eq_true (hwritable _ (Node.self_mem_subterms _))
    match operands, hlength with
    | [], h => cases op <;> exact nomatch h
    | [e], h => exact iff_of_true rfl (show 2 ≤ op.precedence by
        rw [(Operator.sign_levels h.symm).1]; decide)
    | [l, r], h =>
      have hpos : 0 < op.precedence := (Operator.binary_levels h.symm).2.1
      rw [Node.joined]
      split
      next hprecedence =>
        refine iff_of_false ?_ (show ¬ 2 ≤ op.precedence by omega)
        intro heq
        have hright : r = .apply () op [l, r] := by
          simp only [Node.apply.injEq, List.cons.injEq] at heq
          exact heq.2.2.2.1
        have hsize := congrArg sizeOf hright
        simp at hsize
        omega
      next hprecedence => exact iff_of_true rfl (show 2 ≤ op.precedence by omega)
    | _ :: _ :: _ :: _, h => cases op <;> exact nomatch h

/-- An assignment joins nothing: its name would be a summand, and then its sign is in the way. -/
theorem not_derives_sum_assign (word name : String) (lexemes : List Lexeme) (t : Program) :
    ¬ Derives 0 (.name word :: .mark '+' :: .name name :: .mark '=' :: lexemes) t := by
  intro h
  have hread := readExpression?_eq_some_iff.mpr h
  have hstop : readLevel (5 * lexemes.length + 25) 0
      (.name word :: .mark '+' :: .name name :: .mark '=' :: lexemes) =
        some (.apply () .plus2 [.var () word, .var () name], .mark '=' :: lexemes) := rfl
  have hlength : (Lexeme.name word :: .mark '+' :: .name name :: .mark '=' :: lexemes).length =
      lexemes.length + 4 := rfl
  rw [readExpression?, hlength, Nat.mul_add, hstop] at hread
  exact nomatch hread

theorem derives_sum_iff (he : IsExpr e) (hwritable : ∀ n ∈ e.subterms, n.isWritable = true)
    {style : SourceStyle} {depth : Nat} {lexemes : List Lexeme}
    (htext : ' ' :: (e.source style depth).toList = spaced lexemes)
    (hlegible : ∀ l ∈ lexemes, l.isLegible = true) (t : Program) :
    Derives 0 (.name word :: .mark '+' :: lexemes) t ↔ e.level ≠ 0 ∧ t = e.joined word := by
  by_cases hlevel : e.level = 0
  · obtain ⟨tag, name, value, rfl⟩ := he.eq_assign hlevel
    cases he with
    | assign _ _ hvalue =>
      have hbelow : ∀ n ∈ value.subterms, n.isWritable = true :=
        fun n hn => hwritable n (Node.mem_subterms_of_child (by simp [Node.children]) hn)
      have hname : isName name = true := hwritable _ (Node.self_mem_subterms _)
      obtain ⟨rest, hrest, hlegible', -⟩ := source_spells hvalue hbelow style depth
      have hassign : ∀ l ∈ .name name :: .mark '=' :: rest, l.isLegible = true :=
        List.forall_mem_cons.mpr ⟨hname, List.forall_mem_cons.mpr ⟨rfl, hlegible'⟩⟩
      have htext' : ' ' :: ((Node.assign tag name value).source style depth).toList =
          spaced (.name name :: .mark '=' :: rest) := spaced_assign name hrest
      obtain rfl := spaced_injective hlegible hassign (htext.symm.trans htext')
      exact iff_of_false (not_derives_sum_assign word name rest t) fun h => h.1 hlevel
  · obtain ⟨lexemes', htext', hlegible', hderives⟩ :=
      source_joins he hwritable hlevel word style depth
    obtain rfl := spaced_injective hlegible hlegible' (htext.symm.trans htext')
    constructor
    · exact fun h => ⟨hlevel, h.unique hderives.tighter⟩
    · rintro ⟨-, rfl⟩
      exact hderives.tighter

end Sums

section Tests

/-- The lexemes of a text, `>=` and zero make the test. -/
def TestsAs (text : String) (test : Test) : Prop :=
  ∃ lexemes, ' ' :: text.toList = spaced lexemes ∧ (∀ l ∈ lexemes, l.isLegible = true) ∧
    DerivesTest lexemes [.int 0] test

theorem derives_zero : Derives 1 [.int 0] (.int () 0) :=
  (Derives.int 0).looser (by decide)

theorem TestsAs.of_spells {text : String} {e : Program} (h : Spells text 1 e) :
    TestsAs text (.atLeast e (.int () 0)) := by
  obtain ⟨lexemes, htext, hlegible, hderives⟩ := h
  exact ⟨lexemes, htext, hlegible, .atLeast hderives derives_zero⟩

theorem source_tests {e : Program} (he : IsExpr e)
    (hwritable : ∀ n ∈ e.subterms, n.isWritable = true) (style : SourceStyle) (depth : Nat) :
    TestsAs (e.source style depth) e.tested := by
  have hspells := source_spells he hwritable style depth
  induction he with
  | int | float | var => exact .of_spells (hspells.looser (show 1 ≤ tightest by decide))
  | @apply tag op operands =>
    have hlevel : 1 ≤ op.precedence := by cases op <;> decide
    exact .of_spells (hspells.looser hlevel)
  | @assign tag name value hvalue ih =>
    have hbelow : ∀ n ∈ value.subterms, n.isWritable = true :=
      fun n hn => hwritable n (Node.mem_subterms_of_child (by simp [Node.children]) hn)
    have hname : isName name = true := hwritable _ (Node.self_mem_subterms _)
    obtain ⟨lexemes, htext, hlegible, hderives⟩ :=
      ih hbelow (source_spells hvalue hbelow style depth)
    refine ⟨.name name :: .mark '=' :: lexemes, spaced_assign name htext, ?_, .assign hderives⟩
    exact List.forall_mem_cons.mpr ⟨hname, List.forall_mem_cons.mpr ⟨rfl, hlegible⟩⟩

theorem tested_eq_iff {e : Program} (he : IsExpr e) :
    e.tested = .atLeast e (.int () 0) ↔ 1 ≤ e.level := by
  cases he with
  | int | float | var => exact iff_of_true rfl (show 1 ≤ tightest by decide)
  | @apply tag op operands => exact iff_of_true rfl (show 1 ≤ op.precedence by cases op <;> decide)
  | assign => exact iff_of_false nofun (show ¬ 1 ≤ 0 by decide)

end Tests

theorem argumentLexemes?_append {text expression : String} {lexemes : List Lexeme}
    (htext : ' ' :: expression.toList = spaced lexemes)
    (hlegible : ∀ l ∈ lexemes, l.isLegible = true) :
    argumentLexemes? (textLiteral text ++ " + " ++ expression) =
      some (text, .mark '+' :: lexemes) := by
  have hsum : " + ".toList ++ expression.toList = spaced (.mark '+' :: lexemes) := by
    have hspaced : spaced (.mark '+' :: lexemes) = [' ', '+'] ++ spaced lexemes := by
      simp [spaced, Lexeme.spelling]
    rw [hspaced, ← htext]
    rfl
  have hread := lexemes?_spaced (List.forall_mem_cons.mpr ⟨rfl, hlegible⟩ :
    ∀ l ∈ Lexeme.mark '+' :: lexemes, l.isLegible = true)
  rw [argumentLexemes?, String.toList_append, String.toList_append, List.append_assoc,
    textLiteral?_append, hsum]
  simp [hread]

theorem testLexemes?_append {condition : String} {lexemes : List Lexeme}
    (htext : ' ' :: condition.toList = spaced lexemes)
    (hlegible : ∀ l ∈ lexemes, l.isLegible = true) :
    testLexemes? (condition ++ " >= 0") = some (lexemes, [.int 0]) := by
  have hzero : spaced [.int 0] = [' ', '0'] := by decide
  have hlist : (condition ++ " >= 0").toList =
      condition.toList ++ [' '] ++ '>' :: '=' :: spaced [.int 0] := by
    rw [hzero, String.toList_append]
    simp
  have hsign : ∀ c ∈ ('>' :: '=' :: spaced [.int 0]).head?, c = '>' := by
    rintro c ⟨⟩
    rfl
  obtain ⟨hbefore, hdrop⟩ := lexemes?_before_sign htext hlegible hsign
  have hafter : lexemes? (String.ofList (spaced [.int 0])) = some [.int 0] :=
    lexemes?_spaced (by simp [Lexeme.isLegible])
  rw [testLexemes?, hlist, hdrop, hbefore]
  simp [hafter]

/-- In a call of `println` the grouping of an expression is kept exactly if it binds tighter than a
sum: a sum or a difference loses its first summand to the text in front, whatever word stands for
that, and an assignment cannot be read there. In the head of a loop the grouping is kept exactly if
the expression is no assignment. -/
theorem contexts_keep_grouping_iff {e : Program} (he : IsExpr e)
    (hwritable : ∀ n ∈ e.subterms, n.isWritable = true) (style : SourceStyle) (depth : Nat)
    (text : String) (body : Program) :
    (∃ argument lexemes,
      (Node.print () text (some e)).source style depth = printCall argument ∧
      argumentLexemes? argument = some (text, lexemes) ∧
      ∀ word,
        (∀ t, Derives 0 (.name word :: lexemes) t ↔ e.level ≠ 0 ∧ t = e.joined word) ∧
        (Derives 0 (.name word :: lexemes) (.apply () .plus2 [.var () word, e]) ↔ 2 ≤ e.level)) ∧
    ∃ test block before after,
      (Node.loop () e body).source style depth =
        String.join ["while ( ", test, " ) \x7b", block, "\x7d"] ∧
      testLexemes? test = some (before, after) ∧
      (∀ t, DerivesTest before after t ↔ t = e.tested) ∧
      (DerivesTest before after (.atLeast e (.int () 0)) ↔ 1 ≤ e.level) := by
  refine ⟨?_, ?_⟩
  · obtain ⟨lexemes, htext, hlegible, -⟩ := source_spells he hwritable style depth
    refine ⟨_, .mark '+' :: lexemes, rfl, argumentLexemes?_append htext hlegible, fun word => ?_⟩
    have hsum : ∀ t, Derives 0 (.name word :: .mark '+' :: lexemes) t ↔
        e.level ≠ 0 ∧ t = e.joined word := derives_sum_iff he hwritable htext hlegible
    refine ⟨hsum, ?_⟩
    rw [hsum]
    constructor
    · rintro ⟨hlevel, heq⟩
      exact (joined_eq_iff he hwritable word hlevel).mp heq.symm
    · intro hlevel
      have hne : e.level ≠ 0 := by omega
      exact ⟨hne, ((joined_eq_iff he hwritable word hne).mpr hlevel).symm⟩
  · obtain ⟨lexemes, htext, hlegible, hderives⟩ := source_tests he hwritable style depth
    have htested : ∀ t, DerivesTest lexemes [.int 0] t ↔ t = e.tested :=
      fun t => ⟨fun h => h.unique hderives, fun h => h ▸ hderives⟩
    refine ⟨e.source style depth ++ " >= 0", style.lineEnd ++
      style.block (depth + 1) body.kind (body.source style (depth + 1)) ++ style.indentation depth,
      lexemes, [.int 0], ?_, testLexemes?_append htext hlegible, htested, ?_⟩
    · rw [Node.source, SourceStyle.loop, ← String.toList_inj]
      simp [String.join]
    · rw [htested, eq_comm, tested_eq_iff he]

/-- `( i = 3 ) * 2`. -/
def scaledAssignment : Program :=
  .apply () .mult [.assign () "i" (.int () 3), .int () 2]

theorem scaledAssignment_keeps_grouping :
    IsExpr scaledAssignment ∧ (∀ n ∈ scaledAssignment.subterms, n.isWritable = true) ∧
    (∃ argument lexemes, (Node.print () "x" (some scaledAssignment)).source {} 0 =
        printCall argument ∧
      argumentLexemes? argument = some ("x", lexemes) ∧
      Derives 0 (.name "x" :: lexemes) (.apply () .plus2 [.var () "x", scaledAssignment])) ∧
    ∃ test block before after,
      (Node.loop () scaledAssignment (.sequence () [])).source {} 0 =
        String.join ["while ( ", test, " ) \x7b", block, "\x7d"] ∧
      testLexemes? test = some (before, after) ∧
      DerivesTest before after (.atLeast scaledAssignment (.int () 0)) := by
  have he : IsExpr scaledAssignment := .pair () .mult (.assign () "i" (.int () 3)) (.int () 2)
  have hwritable : ∀ n ∈ scaledAssignment.subterms, n.isWritable = true :=
    List.all_eq_true.mp (by decide)
  obtain ⟨⟨argument, lexemes, hargument, hread, hgroups⟩, hloop⟩ :=
    contexts_keep_grouping_iff he hwritable {} 0 "x" (.sequence () [])
  obtain ⟨test, block, before, after, hsource, htest, -, hkept⟩ := hloop
  refine ⟨he, hwritable, ⟨argument, lexemes, hargument, hread, (hgroups "x").2.mpr (by decide)⟩,
    test, block, before, after, hsource, htest, hkept.mpr (by decide)⟩

/-- `1 + 2`. -/
def smallSum : Program :=
  .apply () .plus2 [.int () 1, .int () 2]

/-- `i = 3`. -/
def smallAssignment : Program :=
  .assign () "i" (.int () 3)

/-- Next to a text `1 + 2` is taken apart, and in a test of `i = 3` it is the three that is
tested. -/
theorem smallParts_regrouped :
    IsExpr smallSum ∧ (∀ n ∈ smallSum.subterms, n.isWritable = true) ∧
    (Node.print () "x" (some smallSum)).source {} 0 = "System.out.println(\"x\" + 1 + 2)" ∧
    (∃ lexemes, argumentLexemes? "\"x\" + 1 + 2" = some ("x", lexemes) ∧
      ¬ Derives 0 (.name "x" :: lexemes) (.apply () .plus2 [.var () "x", smallSum])) ∧
    IsExpr smallAssignment ∧ (∀ n ∈ smallAssignment.subterms, n.isWritable = true) ∧
    (Node.loop () smallAssignment (.sequence () [])).source {} 0 =
      "while ( i = 3 >= 0 ) \x7b\n\x7d" ∧
    ∃ before after, testLexemes? "i = 3 >= 0" = some (before, after) ∧
      ¬ DerivesTest before after (.atLeast smallAssignment (.int () 0)) := by
  refine ⟨.pair () .plus2 (.int () 1) (.int () 2), List.all_eq_true.mp (by decide), by decide,
    ⟨[.mark '+', .int 1, .mark '+', .int 2], by decide +kernel, ?_⟩,
    .assign () "i" (.int () 3), List.all_eq_true.mp (by decide), by decide,
    [.name "i", .mark '=', .int 3], [.int 0], by decide +kernel, ?_⟩
  · intro h
    have hregrouped : readExpression? [.name "x", .mark '+', .int 1, .mark '+', .int 2] =
        some (.apply () .plus2 [.apply () .plus2 [.var () "x", .int () 1], .int () 2]) := rfl
    have heq := h.unique (readExpression?_eq_some_iff.mp hregrouped)
    exact nomatch heq
  · intro h
    cases h with
    | atLeast h => exact nomatch h.not_assign

end ProgramTrees
