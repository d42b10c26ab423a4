import ProgramTrees.Proofs.Grammar

namespace ProgramTrees

/-- The operator with a number of operands and a precedence that a mark stands for. -/
def operatorAt? (arity level : Nat) : List Lexeme → Option (Operator × List Lexeme)
  | .mark symbol :: rest =>
    (Operator.all.find? fun op => op.arity = arity && op.precedence = level && op.mark = symbol).map
      (·, rest)
  | _ => none

def assignmentAt? : List Lexeme → Option (String × List Lexeme)
  | .name name :: .mark '=' :: rest => some (name, rest)
  | _ => none

/-- An expression that binds as tight as `tightest`, with `inner` for what stands in parentheses. -/
def readTightest (inner : List Lexeme → Option (Program × List Lexeme)) :
    List Lexeme → Option (Program × List Lexeme)
  | .int n :: rest => some (.int () n, rest)
  | .float x :: rest => some (.float () x, rest)
  | .name name :: rest => some (.var () name, rest)
  | .mark '(' :: rest =>
    (inner rest).bind fun (e, rest) =>
      match rest with
      | .mark ')' :: rest => some (e, rest)
      | _ => none
  | _ => none

mutual

/-- The expression that binds as tight as a level at the beginning of the lexemes, and the rest; the
budget bounds the calls. -/
def readLevel : Nat → Nat → List Lexeme → Option (Program × List Lexeme)
  | 0, _, _ => none
  | budget + 1, level, input =>
    if level = tightest then readTightest (readLevel budget 0) input
    else
      match if level = 0 then assignmentAt? input else none with
      | some (name, rest) =>
        (readLevel budget level rest).map fun (e, rest) => (.assign () name e, rest)
      | none =>
        match operatorAt? 1 level input with
        | some (op, rest) =>
          (readLevel budget level rest).map fun (e, rest) => (.apply () op [e], rest)
        | none =>
          (readLevel budget (level + 1) input).bind fun (left, rest) =>
            readMore budget level left rest

/-- Goes on after a left operand while an operator of the level follows. -/
def readMore : Nat → Nat → Program → List Lexeme → Option (Program × List Lexeme)
  | 0, _, _, _ => none
  | budget + 1, level, left, input =>
    match operatorAt? 2 level input with
    | some (op, rest) =>
      (readLevel budget (level + 1) rest).bind fun (right, rest) =>
        readMore budget level (.apply () op [left, right]) rest
    | none => some (left, input)

end

theorem Operator.sign_levels {op : Operator} (h : op.arity = 1) :
    op.precedence = 3 ∧ op.operandLevel .right = 3 := by
  cases op with
  | plus1 | minus1 => exact ⟨rfl, rfl⟩
  | plus2 | minus2 | mult | div | mod => exact nomatch h

theorem Operator.binary_levels {op : Operator} (h : op.arity = 2) :
    op.precedence < 3 ∧ 0 < op.precedence ∧ op.operandLevel .left = op.precedence ∧
      op.operandLevel .right = op.precedence + 1 := by
  cases op with
  | plus1 | minus1 => exact nomatch h
  | plus2 | minus2 | mult | div | mod => exact ⟨by decide, by decide, rfl, rfl⟩

theorem operatorAt?_mark (op : Operator) (rest : List Lexeme) :
    operatorAt? op.arity op.precedence (.mark op.mark :: rest) = some (op, rest) := by
  cases op <;> rfl

theorem operatorAt?_one_eq_none {level : Nat} (h : level ≠ 3) (input : List Lexeme) :
    operatorAt? 1 level input = none := by
  unfold operatorAt?
  split
  next symbol rest =>
    simp only [Option.map_eq_none_iff, List.find?_eq_none, Bool.and_eq_true, decide_eq_true_eq,
      not_and, and_imp]
    intro op _ harity hlevel
    exact absurd (hlevel ▸ (Operator.sign_levels harity).1) h
  next => rfl

theorem operatorAt?_two_eq_none {level : Nat} (h : level = 0 ∨ 3 ≤ level) (input : List Lexeme) :
    operatorAt? 2 level input = none := by
  unfold operatorAt?
  split
  next symbol rest =>
    simp only [Option.map_eq_none_iff, List.find?_eq_none, Bool.and_eq_true, decide_eq_true_eq,
      not_and, and_imp]
    intro op _ harity hlevel
    obtain ⟨hlt, hpos, -, -⟩ := Operator.binary_levels harity
    omega
  next => rfl

/-- What follows an expression of a level: no operator that binds tighter, and no sign of
assignment. -/
structure Follows (level : Nat) (rest : List Lexeme) : Prop where
  operator : ∀ l, level < l → operatorAt? 2 l rest = none
  assignment : rest.head? ≠ some (.mark '=')

theorem Follows.mono {level level' : Nat} {rest : List Lexeme} (h : Follows level rest)
    (hle : level ≤ level') : Follows level' rest :=
  ⟨fun l hl => h.operator l (by omega), h.assignment⟩

theorem follows_nil (level : Nat) : Follows level [] :=
  ⟨fun _ _ => rfl, by simp⟩

theorem follows_close (level : Nat) (rest : List Lexeme) :
    Follows level (.mark ')' :: rest) := by
  refine ⟨fun l _ => ?_, by simp⟩
  simp only [operatorAt?, Option.map_eq_none_iff, List.find?_eq_none]
  intro op _
  have hmark : op.mark ≠ ')' := by cases op <;> decide
  simp [hmark]

theorem Operator.eq_of_mark {op op' : Operator} (harity : op.arity = op'.arity)
    (hmark : op.mark = op'.mark) : op = op' := by
  revert harity hmark
  cases op <;> cases op' <;> decide

theorem follows_operator {op : Operator} (harity : op.arity = 2) (rest : List Lexeme) :
    Follows op.precedence (.mark op.mark :: rest) := by
  refine ⟨fun l hl => ?_, ?_⟩
  · simp only [operatorAt?, Option.map_eq_none_iff, List.find?_eq_none, Bool.and_eq_true,
      decide_eq_true_eq, not_and, and_imp]
    intro op' _ harity' hlevel hmark
    have heq : op' = op := Operator.eq_of_mark (harity'.trans harity.symm) hmark
    rw [heq] at hlevel
    omega
  · have hmark : op.mark ≠ '=' := by cases op <;> decide
    simp [hmark]

section Derivations

variable {level : Nat} {lexemes rest : List Lexeme} {e : Program}

theorem Derives.level_le (h : Derives level lexemes e) : level ≤ tightest := by
  induction h with
  | int | float | name | parentheses => exact Nat.le_refl _
  | @sign op _ _ harity => rw [(Operator.sign_levels harity).1]; decide
  | @binary op _ _ _ _ harity =>
    have hlt := (Operator.binary_levels harity).1
    unfold tightest
    omega
  | assign => exact Nat.zero_le _
  | tighter _ ih => omega

theorem Derives.assignmentAt?_eq_none (h : Derives level lexemes e) (hlevel : level ≠ 0)
    (hrest : rest.head? ≠ some (.mark '=')) : assignmentAt? (lexemes ++ rest) = none := by
  induction h generalizing rest with
  | int | float | parentheses | sign => rfl
  | name name =>
    unfold assignmentAt?
    split
    next rest' heq =>
      have htail : rest = .mark '=' :: rest' := (List.cons.inj heq).2
      exact absurd (by rw [htail]; rfl) hrest
    next => rfl
  | @binary op left right l r harity _ _ ihl _ =>
    obtain ⟨-, hpos, hleft, -⟩ := Operator.binary_levels harity
    rw [List.append_assoc]
    exact ihl (by omega) (follows_operator harity (right ++ rest)).assignment
  | assign => exact absurd rfl hlevel
  | tighter _ ih => exact ih (by omega) hrest

theorem Derives.noSign (h : Derives tightest lexemes e) (rest : List Lexeme) :
    operatorAt? 1 3 (lexemes ++ rest) = none := by
  generalize hlevel : tightest = level at h
  cases h with
  | int | float | name | parentheses => rfl
  | @sign op _ _ harity => exact absurd hlevel (by rw [(Operator.sign_levels harity).1]; decide)
  | @binary op _ _ _ _ harity =>
    have hlt := (Operator.binary_levels harity).1
    unfold tightest at hlevel
    omega
  | assign => exact absurd hlevel (by decide)
  | tighter h =>
    have hle := h.level_le
    omega

end Derivations

section Steps

variable {n level : Nat} {input rest : List Lexeme} {e l r : Program} {op : Operator}
  {result : Program × List Lexeme}

theorem readLevel_parentheses (h : readLevel n 0 input = some (e, .mark ')' :: rest)) :
    readLevel (n + 1) tightest (.mark '(' :: input) = some (e, rest) := by
  rw [readLevel, if_pos rfl]
  simp [readTightest, h]

theorem readLevel_assign {name : String} (h : readLevel n 0 input = some (e, rest)) :
    readLevel (n + 1) 0 (.name name :: .mark '=' :: input) = some (.assign () name e, rest) := by
  rw [readLevel, if_neg (by decide), if_pos rfl]
  simp [assignmentAt?, h]

theorem readLevel_sign (harity : op.arity = 1)
    (h : readLevel n op.precedence input = some (e, rest)) :
    readLevel (n + 1) op.precedence (.mark op.mark :: input) =
      some (.apply () op [e], rest) := by
  have hlevel := (Operator.sign_levels harity).1
  have hat := operatorAt?_mark op input
  rw [harity] at hat
  rw [readLevel, if_neg (by rw [hlevel]; decide), if_neg (by omega)]
  simp [hat, h]

theorem readLevel_tighter (hlevel : level < tightest) (hassign : assignmentAt? input = none)
    (hsign : operatorAt? 1 level input = none)
    (hread : readLevel n (level + 1) input = some (e, rest))
    (hmore : readMore n level e rest = some result) :
    readLevel (n + 1) level input = some result := by
  rw [readLevel, if_neg (Nat.ne_of_lt hlevel)]
  simp [hassign, hsign, hread, hmore]

theorem readMore_binary (harity : op.arity = 2)
    (hread : readLevel n (op.precedence + 1) input = some (r, rest))
    (hmore : readMore n op.precedence (.apply () op [l, r]) rest = some result) :
    readMore (n + 1) op.precedence l (.mark op.mark :: input) = some result := by
  have hat := operatorAt?_mark op input
  rw [harity] at hat
  rw [readMore, hat]
  simp [hread, hmore]

end Steps

section Completeness

variable {level fuel : Nat} {lexemes rest : List Lexeme} {e : Program}
  {result : Program × List Lexeme}

/-- The parser goes on with a left operand and what follows, for every budget that is large
enough. -/
def GoesOn (fuel level : Nat) (left : Program) (rest : List Lexeme)
    (result : Program × List Lexeme) : Prop :=
  ∀ n, fuel ≤ n → readMore n level left rest = some result

theorem GoesOn.fuel_pos (h : GoesOn fuel level e rest result) : 0 < fuel := by
  rcases Nat.eq_zero_or_pos fuel with rfl | hpos
  · have hzero := h 0 (Nat.le_refl 0)
    rw [readMore] at hzero
    exact nomatch hzero
  · exact hpos

theorem goesOn_stop (hrest : operatorAt? 2 level rest = none) :
    GoesOn 1 level e rest (e, rest) := by
  intro n hn
  obtain ⟨m, rfl⟩ : ∃ m, n = m + 1 := ⟨n - 1, by omega⟩
  rw [readMore, hrest]

theorem GoesOn.result_eq (h : GoesOn fuel level e rest result)
    (hrest : operatorAt? 2 level rest = none) : result = (e, rest) := by
  have hstop := goesOn_stop (e := e) hrest (fuel + 1) (by omega)
  rw [h (fuel + 1) (by omega)] at hstop
  exact Option.some.inj hstop

/-- Every expression of the grammar is read, up to where it ends. The induction is on the
derivation; a budget that is large enough exceeds what the parser needs to go on by five for
each lexeme and one for each level that is tighter. -/
theorem Derives.readLevel_eq (h : Derives level lexemes e) (hrest : Follows level rest)
    (hmore : GoesOn fuel level e rest result) {n : Nat}
    (hn : fuel + 5 * lexemes.length + (tightest - level) ≤ n) :
    readLevel n level (lexemes ++ rest) = some result := by
  unfold tightest at hn
  have hpos := hmore.fuel_pos
  induction h generalizing fuel rest result n with
  | int | float | name =>
    obtain ⟨m, rfl⟩ : ∃ m, n = m + 1 := ⟨n - 1, by omega⟩
    rw [hmore.result_eq (operatorAt?_two_eq_none (.inr (by decide)) rest), readLevel, if_pos rfl]
    rfl
  | @parentheses inside e _ ih =>
    have hlength : (Lexeme.mark '(' :: inside ++ [Lexeme.mark ')']).length = inside.length + 2 := by
      simp
    obtain ⟨m, rfl⟩ : ∃ m, n = m + 1 := ⟨n - 1, by omega⟩
    have hstop : operatorAt? 2 0 (.mark ')' :: rest) = none := operatorAt?_two_eq_none (.inl rfl) _
    have hinside : readLevel m 0 (inside ++ .mark ')' :: rest) = some (e, .mark ')' :: rest) :=
      ih (follows_close 0 rest) (goesOn_stop hstop) (by omega) Nat.one_pos
    rw [hmore.result_eq (operatorAt?_two_eq_none (.inr (by decide)) rest)]
    simpa using readLevel_parentheses hinside
  | @sign op operand e harity _ ih =>
    obtain ⟨hlevel, hoperand⟩ := Operator.sign_levels harity
    have hlength : (Lexeme.mark op.mark :: operand).length = operand.length + 1 := rfl
    obtain ⟨m, rfl⟩ : ∃ m, n = m + 1 := ⟨n - 1, by omega⟩
    have hstop : operatorAt? 2 op.precedence rest = none :=
      operatorAt?_two_eq_none (.inr (by omega)) rest
    rw [hoperand, ← hlevel] at ih
    have hread : readLevel m op.precedence (operand ++ rest) = some (e, rest) :=
      ih hrest (goesOn_stop hstop) (by omega) Nat.one_pos
    rw [hmore.result_eq hstop]
    exact readLevel_sign harity hread
  | @binary op left right l r harity _ _ ihl ihr =>
    obtain ⟨hlt, hpos, hleft, hright⟩ := Operator.binary_levels harity
    have hlength : (left ++ Lexeme.mark op.mark :: right).length =
        left.length + right.length + 1 := by
      simp
      omega
    rw [hleft] at ihl
    rw [hright] at ihr
    -- The right operand and what follows are read after the left one.
    have hafter : GoesOn (fuel + 5 * right.length + 5) op.precedence l
        (.mark op.mark :: (right ++ rest)) result := by
      intro k hk
      obtain ⟨m, rfl⟩ : ∃ m, k = m + 1 := ⟨k - 1, by omega⟩
      have hread : readLevel m (op.precedence + 1) (right ++ rest) = some (r, rest) :=
        ihr (hrest.mono (Nat.le_succ _)) (goesOn_stop (hrest.operator _ (Nat.lt_succ_self _)))
          (by omega) Nat.one_pos
      exact readMore_binary harity hread (hmore m (by omega))
    rw [List.append_assoc]
    exact ihl (follows_operator harity (right ++ rest)) hafter (by omega) (by omega)
  | @assign name value e _ ih =>
    have hlength : (Lexeme.name name :: .mark '=' :: value).length = value.length + 2 := rfl
    obtain ⟨m, rfl⟩ : ∃ m, n = m + 1 := ⟨n - 1, by omega⟩
    have hstop : operatorAt? 2 0 rest = none := operatorAt?_two_eq_none (.inl rfl) rest
    have hread : readLevel m 0 (value ++ rest) = some (e, rest) :=
      ih hrest (goesOn_stop hstop) (by omega) Nat.one_pos
    rw [hmore.result_eq hstop]
    exact readLevel_assign hread
  | @tighter level lexemes e h ih =>
    have hlt : level < tightest := h.level_le
    obtain ⟨m, rfl⟩ : ∃ m, n = m + 1 := ⟨n - 1, by omega⟩
    have hassign : assignmentAt? (lexemes ++ rest) = none :=
      h.assignmentAt?_eq_none (Nat.succ_ne_zero level) hrest.assignment
    have hsign : operatorAt? 1 level (lexemes ++ rest) = none := by
      by_cases hlevel : level = 3
      · subst hlevel
        exact h.noSign rest
      · exact operatorAt?_one_eq_none hlevel (lexemes ++ rest)
    have hread : readLevel m (level + 1) (lexemes ++ rest) = some (e, rest) :=
      ih (hrest.mono (Nat.le_succ level))
        (goesOn_stop (hrest.operator _ (Nat.lt_succ_self level)))
        (by unfold tightest at hlt; omega) Nat.one_pos
    exact readLevel_tighter hlt hassign hsign hread
      (hmore m (by unfold tightest at hlt; omega))

end Completeness

section Soundness

variable {level : Nat} {input rest : List Lexeme} {e : Program} {op : Operator}

theorem operatorAt?_eq_some {arity : Nat} (h : operatorAt? arity level input = some (op, rest)) :
    input = .mark op.mark :: rest ∧ op.arity = arity ∧ op.precedence = level := by
  unfold operatorAt? at h
  split at h
  next symbol after =>
    obtain ⟨found, hfind, heq⟩ := Option.map_eq_some_iff.mp h
    obtain ⟨rfl, rfl⟩ := Prod.mk.inj heq
    have hfound := List.find?_some hfind
    simp only [Bool.and_eq_true, decide_eq_true_eq] at hfound
    obtain ⟨⟨harity, hlevel⟩, hmark⟩ := hfound
    exact ⟨by rw [hmark], harity, hlevel⟩
  next => exact nomatch h

theorem assignmentAt?_eq_some {name : String} (h : assignmentAt? input = some (name, rest)) :
    input = .name name :: .mark '=' :: rest := by
  unfold assignmentAt? at h
  split at h
  next => obtain ⟨rfl, rfl⟩ := Prod.mk.inj (Option.some.inj h); rfl
  next => exact nomatch h

/-- What a reader takes from the lexemes is an expression of the level. -/
def Sound (level : Nat) (read : List Lexeme → Option (Program × List Lexeme)) : Prop :=
  ∀ input e rest, read input = some (e, rest) →
    ∃ lexemes, input = lexemes ++ rest ∧ Derives level lexemes e

theorem readTightest_sound {inner : List Lexeme → Option (Program × List Lexeme)}
    (hinner : Sound 0 inner) : Sound tightest (readTightest inner) := by
  intro input e rest h
  unfold readTightest at h
  split at h
  next n rest' =>
    obtain ⟨rfl, rfl⟩ := Prod.mk.inj (Option.some.inj h)
    exact ⟨[.int n], rfl, .int n⟩
  next x rest' =>
    obtain ⟨rfl, rfl⟩ := Prod.mk.inj (Option.some.inj h)
    exact ⟨[.float x], rfl, .float x⟩
  next name rest' =>
    obtain ⟨rfl, rfl⟩ := Prod.mk.inj (Option.some.inj h)
    exact ⟨[.name name], rfl, .name name⟩
  next inside =>
    obtain ⟨⟨e', after⟩, hread, hclose⟩ := Option.bind_eq_some_iff.mp h
    obtain ⟨lexemes, rfl, hderives⟩ := hinner inside e' after hread
    dsimp only at hclose
    split at hclose
    next =>
      obtain ⟨rfl, rfl⟩ := Prod.mk.inj (Option.some.inj hclose)
      exact ⟨.mark '(' :: lexemes ++ [.mark ')'], by simp, .parentheses hderives⟩
    next => exact nomatch hclose
  next => exact nomatch h

/-- A left operand of the level is extended to an expression of the level. -/
def ExtendsSoundly (level : Nat)
    (read : Program → List Lexeme → Option (Program × List Lexeme)) : Prop :=
  ∀ left before input e rest, Derives level before left → read left input = some (e, rest) →
    ∃ lexemes, input = lexemes ++ rest ∧ Derives level (before ++ lexemes) e

theorem readLevel_succ_sound {n : Nat} (hlevel : level ≤ tightest)
    (hread : ∀ l, l ≤ tightest → Sound l (readLevel n l))
    (hmore : ∀ l, l < tightest → ExtendsSoundly l (readMore n l)) :
    Sound level (readLevel (n + 1) level) := by
  intro input e rest h
  rw [readLevel] at h
  by_cases htight : level = tightest
  · rw [if_pos htight] at h
    rw [htight]
    exact readTightest_sound (hread 0 (Nat.zero_le _)) input e rest h
  rw [if_neg htight] at h
  split at h
  next name after hassign =>
    obtain ⟨⟨value, rest'⟩, hvalue, heq⟩ := Option.map_eq_some_iff.mp h
    obtain ⟨rfl, rfl⟩ := Prod.mk.inj heq
    by_cases hzero : level = 0
    · subst hzero
      rw [if_pos rfl] at hassign
      obtain ⟨lexemes, rfl, hderives⟩ := hread 0 hlevel after value rest' hvalue
      exact ⟨_, assignmentAt?_eq_some hassign, .assign hderives⟩
    · rw [if_neg hzero] at hassign
      exact nomatch hassign
  next =>
    split at h
    next op after hsign =>
      obtain ⟨⟨operand, rest'⟩, hoperand, heq⟩ := Option.map_eq_some_iff.mp h
      obtain ⟨rfl, rfl⟩ := Prod.mk.inj heq
      obtain ⟨rfl, harity, hprecedence⟩ := operatorAt?_eq_some hsign
      obtain ⟨lexemes, rfl, hderives⟩ := hread level hlevel after operand rest' hoperand
      obtain ⟨hthree, hright⟩ := Operator.sign_levels harity
      have hsame : op.operandLevel .right = level := by omega
      rw [← hsame] at hderives
      rw [← hprecedence]
      exact ⟨.mark op.mark :: lexemes, rfl, .sign harity hderives⟩
    next =>
      obtain ⟨⟨left, after⟩, hleft, hafter⟩ := Option.bind_eq_some_iff.mp h
      obtain ⟨before, rfl, hbefore⟩ := hread (level + 1) (by omega) input left after hleft
      obtain ⟨lexemes, rfl, hderives⟩ :=
        hmore level (by omega) left before after e rest hbefore.tighter hafter
      exact ⟨before ++ lexemes, by simp, hderives⟩

theorem readMore_succ_sound {n : Nat} (hlevel : level < tightest)
    (hread : ∀ l, l ≤ tightest → Sound l (readLevel n l))
    (hmore : ∀ l, l < tightest → ExtendsSoundly l (readMore n l)) :
    ExtendsSoundly level (readMore (n + 1) level) := by
  intro left before input e rest hbefore h
  rw [readMore] at h
  split at h
  next op after hat =>
    obtain ⟨⟨right, rest'⟩, hright, hafter⟩ := Option.bind_eq_some_iff.mp h
    obtain ⟨rfl, harity, hprecedence⟩ := operatorAt?_eq_some hat
    obtain ⟨lexemes, rfl, hderives⟩ := hread (level + 1) hlevel after right rest' hright
    obtain ⟨-, -, hleftLevel, hrightLevel⟩ := Operator.binary_levels harity
    rw [hprecedence] at hleftLevel hrightLevel
    have hbinary : Derives op.precedence (before ++ .mark op.mark :: lexemes)
        (.apply () op [left, right]) :=
      .binary harity (hleftLevel ▸ hbefore) (hrightLevel ▸ hderives)
    rw [hprecedence] at hbinary
    obtain ⟨more, rfl, hextended⟩ := hmore level hlevel _ _ rest' e rest hbinary hafter
    exact ⟨.mark op.mark :: (lexemes ++ more), by simp, by simpa using hextended⟩
  next =>
    obtain ⟨rfl, rfl⟩ := Prod.mk.inj (Option.some.inj h)
    exact ⟨[], rfl, by simpa using hbefore⟩

/-- What the parser reads is derived by the grammar, for every budget. -/
theorem read_sound (n : Nat) :
    (∀ l, l ≤ tightest → Sound l (readLevel n l)) ∧
      ∀ l, l < tightest → ExtendsSoundly l (readMore n l) := by
  induction n with
  | zero =>
    refine ⟨?_, ?_⟩
    · intro l _ input e rest h
      rw [readLevel] at h
      exact nomatch h
    · intro l _ left before input e rest _ h
      rw [readMore] at h
      exact nomatch h
  | succ n ih =>
    exact ⟨fun l hl => readLevel_succ_sound hl ih.1 ih.2,
      fun l hl => readMore_succ_sound hl ih.1 ih.2⟩

end Soundness

/-- The expression that all the lexemes make. -/
def readExpression? (lexemes : List Lexeme) : Option Program :=
  match readLevel (5 * lexemes.length + 5) 0 lexemes with
  | some (e, []) => some e
  | _ => none

/-- The parser reads what the grammar derives, and nothing else. -/
theorem readExpression?_eq_some_iff {lexemes : List Lexeme} {e : Program} :
    readExpression? lexemes = some e ↔ Derives 0 lexemes e := by
  unfold readExpression?
  constructor
  · intro h
    split at h
    next e' hread =>
      obtain rfl := Option.some.inj h
      obtain ⟨lexemes', heq, hderives⟩ :=
        (read_sound _).1 0 (Nat.zero_le _) lexemes e' [] hread
      rw [heq, List.append_nil]
      exact hderives
    next => exact nomatch h
  · intro h
    have hread : readLevel (5 * lexemes.length + 5) 0 (lexemes ++ []) = some (e, []) :=
      h.readLevel_eq (follows_nil 0) (goesOn_stop rfl) (by unfold tightest; omega)
    rw [List.append_nil] at hread
    rw [hread]

theorem Derives.unique {lexemes : List Lexeme} {e e' : Program} (h : Derives 0 lexemes e)
    (h' : Derives 0 lexemes e') : e = e' := by
  have hread := readExpression?_eq_some_iff.mpr h
  have hread' := readExpression?_eq_some_iff.mpr h'
  exact Option.some.inj (hread.symm.trans hread')

end ProgramTrees
