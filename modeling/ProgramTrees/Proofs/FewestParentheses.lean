import ProgramTrees.Proofs.SourceCharacters

namespace ProgramTrees

def parenthesisMarks : List Char := ['(', ')']

section Numbers

variable {text rest after : List Char}

/-- What a reader has taken off a text are characters of numbers. -/
def TakesNumber (text rest : List Char) : Prop :=
  ∃ word, text = word ++ rest ∧ ∀ c ∈ word, IsNumberChar c

theorem TakesNumber.refl (text : List Char) : TakesNumber text text :=
  ⟨[], rfl, by simp⟩

theorem TakesNumber.cons {c : Char} (hc : IsNumberChar c) (h : TakesNumber text rest) :
    TakesNumber (c :: text) rest := by
  obtain ⟨word, rfl, hword⟩ := h
  exact ⟨c :: word, rfl, List.forall_mem_cons.mpr ⟨hc, hword⟩⟩

theorem TakesNumber.trans (h : TakesNumber text rest) (h' : TakesNumber rest after) :
    TakesNumber text after := by
  obtain ⟨word, rfl, hword⟩ := h
  obtain ⟨more, rfl, hmore⟩ := h'
  exact ⟨word ++ more, by simp, List.forall_mem_append.mpr ⟨hword, hmore⟩⟩

theorem takeDigits?_takes {digits : List Char} (h : takeDigits? text = some (digits, rest)) :
    TakesNumber text rest := by
  unfold takeDigits? at h
  simp only at h
  split at h
  next => exact nomatch h
  next =>
    obtain ⟨-, rfl⟩ := Prod.mk.inj (Option.some.inj h)
    refine ⟨text.takeWhile Char.isDigit, List.takeWhile_append_dropWhile.symm, ?_⟩
    exact fun c hc => .inl (List.mem_takeWhile_imp hc)

theorem wholeDigits?_takes {digits : List Char} (h : wholeDigits? text = some (digits, rest)) :
    TakesNumber text rest := by
  unfold wholeDigits? at h
  split at h
  next =>
    obtain ⟨-, rfl⟩ := Prod.mk.inj (Option.some.inj h)
    exact (TakesNumber.refl _).cons (.inl (by decide))
  next => exact takeDigits?_takes h

theorem fractionDigits?_takes {digits : List Char}
    (h : fractionDigits? text = some (digits, rest)) : TakesNumber text rest := by
  unfold fractionDigits? at h
  split at h
  next => exact (takeDigits?_takes h).cons (.inr (by decide))
  next => exact nomatch h

theorem exponentValue?_takes {e : Int} (h : exponentValue? text = some (e, rest)) :
    TakesNumber text rest := by
  unfold exponentValue? at h
  split at h
  all_goals
    obtain ⟨⟨digits, after⟩, hdigits, heq⟩ := Option.map_eq_some_iff.mp h
    obtain ⟨-, rfl⟩ := Prod.mk.inj heq
  next => exact (takeDigits?_takes hdigits).cons (.inr (by decide))
  next => exact (takeDigits?_takes hdigits).cons (.inr (by decide))
  next => exact takeDigits?_takes hdigits

theorem exponentPart?_takes {e : Int} (h : exponentPart? text = some (e, rest)) :
    TakesNumber text rest := by
  unfold exponentPart? at h
  split at h
  next => exact (exponentValue?_takes h).cons (.inr (by decide))
  next => exact (exponentValue?_takes h).cons (.inr (by decide))
  next => exact nomatch h

theorem readUnsigned?_takes {negative : Bool} {numeral : Numeral}
    (h : readUnsigned? negative text = some (numeral, rest)) : TakesNumber text rest := by
  obtain ⟨⟨whole, afterWhole⟩, hwhole, heq⟩ := Option.map_eq_some_iff.mp h
  refine (wholeDigits?_takes hwhole).trans ?_
  dsimp only at heq
  generalize hfraction : (fractionDigits? afterWhole).getD ([], afterWhole) = read at heq
  have htakes : TakesNumber afterWhole read.2 := by
    cases hdigits : fractionDigits? afterWhole with
    | none =>
      rw [← hfraction, hdigits]
      exact .refl _
    | some digits =>
      rw [← hfraction, hdigits]
      exact fractionDigits?_takes hdigits
  refine htakes.trans ?_
  cases hexponent : exponentPart? read.2 with
  | none =>
    rw [hexponent] at heq
    obtain ⟨-, rfl⟩ := Prod.mk.inj heq
    exact .refl _
  | some exponent =>
    rw [hexponent] at heq
    obtain ⟨-, rfl⟩ := Prod.mk.inj heq
    exact exponentPart?_takes hexponent

end Numbers

section Lexemes

variable {c : Char} {text rest : List Char} {lexeme : Lexeme}

theorem count_append_of_forall_ne {word : List Char} (h : ∀ d ∈ word, d ≠ c) (rest : List Char) :
    (word ++ rest).count c = rest.count c := by
  have hzero : word.count c = 0 := List.count_eq_zero.mpr fun hc => h c hc rfl
  rw [List.count_append, hzero, Nat.zero_add]

theorem count_dropWhile {p : Char → Bool} (hp : p c = false) (text : List Char) :
    (text.dropWhile p).count c = text.count c := by
  have htaken : ∀ d ∈ text.takeWhile p, d ≠ c := by
    rintro d hd rfl
    rw [List.mem_takeWhile_imp hd] at hp
    exact nomatch hp
  have hcount := count_append_of_forall_ne htaken (text.dropWhile p)
  rw [List.takeWhile_append_dropWhile] at hcount
  exact hcount.symm

theorem parenthesis_cases (hc : c ∈ parenthesisMarks) : c = '(' ∨ c = ')' := by
  simpa [parenthesisMarks] using hc

theorem ne_of_isNumberChar (hc : c ∈ parenthesisMarks) {d : Char} (hd : IsNumberChar d) :
    d ≠ c := by
  rintro rfl
  rcases parenthesis_cases hc with rfl | rfl <;> exact absurd hd (by simp [IsNumberChar])

theorem count_of_takesNumber (hc : c ∈ parenthesisMarks) (h : TakesNumber text rest) :
    text.count c = rest.count c := by
  obtain ⟨word, rfl, hword⟩ := h
  exact count_append_of_forall_ne (fun d hd => ne_of_isNumberChar hc (hword d hd)) rest

theorem isBlank_parenthesis (hc : c ∈ parenthesisMarks) : isBlank c = false := by
  rcases parenthesis_cases hc with rfl | rfl <;> rfl

theorem isNameChar_parenthesis (hc : c ∈ parenthesisMarks) : isNameChar c = false := by
  rcases parenthesis_cases hc with rfl | rfl <;> rfl

theorem literal?_count (hc : c ∈ parenthesisMarks) {numeral : Numeral}
    (h : literal? numeral text = some (lexeme, rest)) :
    text.count c = [lexeme].count (.mark c) + rest.count c := by
  unfold literal? at h
  split at h
  next =>
    obtain ⟨rfl, rfl⟩ := Prod.mk.inj (Option.some.inj h)
    have hf : 'f' ≠ c := by
      rintro rfl
      exact absurd hc (by decide)
    simp [hf]
  next =>
    simp only at h
    split at h
    next =>
      obtain ⟨rfl, rfl⟩ := Prod.mk.inj (Option.some.inj h)
      simp
    next => exact nomatch h

theorem lexeme?_count (hc : c ∈ parenthesisMarks) (h : lexeme? text = some (lexeme, rest)) :
    text.count c = [lexeme].count (.mark c) + rest.count c := by
  unfold lexeme? at h
  split at h
  next => exact nomatch h
  next first after =>
    split at h
    next =>
      obtain ⟨⟨numeral, afterNumeral⟩, hread, hliteral⟩ := Option.bind_eq_some_iff.mp h
      rw [count_of_takesNumber hc (readUnsigned?_takes hread)]
      exact literal?_count hc hliteral
    next =>
      split at h
      next hsign =>
        obtain ⟨⟨numeral, afterNumeral⟩, hread, hliteral⟩ := Option.bind_eq_some_iff.mp h
        have hfirst : IsNumberChar first := by
          rcases hsign.1 with rfl | rfl
          · exact .inr (by decide)
          · exact .inr (by decide)
        rw [count_of_takesNumber hc ((readUnsigned?_takes hread).cons hfirst)]
        exact literal?_count hc hliteral
      next =>
        split at h
        next =>
          obtain ⟨rfl, rfl⟩ := Prod.mk.inj (Option.some.inj h)
          have hmark : [Lexeme.mark first].count (.mark c) = [first].count c := by
            by_cases hfirst : first = c <;> simp [hfirst]
          rw [hmark, ← List.count_append, List.singleton_append]
        next =>
          split at h
          next hname =>
            obtain ⟨rfl, rfl⟩ := Prod.mk.inj (Option.some.inj h)
            have hfirst : first ≠ c := by
              rintro rfl
              rw [isNameChar_parenthesis hc] at hname
              exact nomatch hname
            rw [List.count_cons_of_ne hfirst, count_dropWhile (isNameChar_parenthesis hc)]
            simp
          next => exact nomatch h

theorem lexemesWithin?_count (hc : c ∈ parenthesisMarks) {budget : Nat} {lexemes : List Lexeme}
    (h : lexemesWithin? budget text = some lexemes) : text.count c = lexemes.count (.mark c) := by
  induction budget generalizing text lexemes with
  | zero => exact nomatch h
  | succ budget ih =>
    rw [lexemesWithin?] at h
    rw [← count_dropWhile (isBlank_parenthesis hc) text]
    split at h
    next hnil =>
      obtain rfl := Option.some.inj h
      rw [hnil]
      rfl
    next =>
      obtain ⟨⟨lexeme, rest⟩, hlexeme, hrest⟩ := Option.bind_eq_some_iff.mp h
      obtain ⟨lexemes, hlexemes, rfl⟩ := Option.map_eq_some_iff.mp hrest
      rw [lexeme?_count hc hlexeme, ih hlexemes, ← List.count_append, List.singleton_append]

theorem lexemes?_count (hc : c ∈ parenthesisMarks) {source : String} {lexemes : List Lexeme}
    (h : lexemes? source = some lexemes) : source.toList.count c = lexemes.count (.mark c) :=
  lexemesWithin?_count hc h

end Lexemes

section Derivations

variable {level : Nat} {lexemes : List Lexeme} {e : Program}

theorem Operator.mark_ne_parenthesis (op : Operator) {c : Char} (hc : c ∈ parenthesisMarks) :
    op.mark ≠ c := by
  rintro rfl
  cases op <;> exact absurd hc (by decide)

theorem Derives.count_close (h : Derives level lexemes e) :
    lexemes.count (.mark ')') = lexemes.count (.mark '(') := by
  have hopen (op : Operator) : op.mark ≠ '(' := op.mark_ne_parenthesis (by decide)
  have hclose (op : Operator) : op.mark ≠ ')' := op.mark_ne_parenthesis (by decide)
  induction h with
  | int | float | name => rfl
  | parentheses _ ih => simp [List.count_append, ih]
  | @sign op _ _ _ _ ih => simp [hopen op, hclose op, ih]
  | @binary op _ _ _ _ _ _ _ ihl ihr =>
    simp [List.count_append, hopen op, hclose op, ihl, ihr]
  | assign _ ih => simp [ih]
  | tighter _ ih => exact ih

end Derivations

section SourceTexts

variable {text : String} {e : Program} {c : Char}

theorem Node.lt_of_needsParentheses {outer : Operator} {side : Side}
    (h : e.needsParentheses outer side = true) : e.level < outer.operandLevel side := by
  cases e with
  | apply _ inner _ =>
    have hnot : ¬ outer.operandLevel side ≤ inner.precedence := fun hle => by
      have hno := ProgramTrees.needsParentheses_eq_false.mpr hle
      rw [Node.needsParentheses, hno] at h
      exact nomatch h
    exact Nat.lt_of_not_le hnot
  | assign =>
    have hpos : 0 < outer.operandLevel side := by cases outer <;> cases side <;> decide
    exact hpos
  | int | float | var | sequence | declare | print | loop => exact nomatch h

theorem count_asOperand_le (op : Operator) (side : Side) (text : String) :
    (e.asOperand op side text).toList.count '(' ≤
      text.toList.count '(' + if e.level < op.operandLevel side then 1 else 0 := by
  unfold Node.asOperand
  split
  next hneeds =>
    rw [if_pos (Node.lt_of_needsParentheses hneeds)]
    simp [parenthesize, List.count_append]
  next => exact Nat.le_add_right _ _

theorem Operator.count_symbol (op : Operator) : op.symbol.toList.count '(' = 0 := by
  cases op <;> rfl

theorem count_of_isNumberChar (hc : c ∈ parenthesisMarks) (h : ∀ d ∈ text.toList, IsNumberChar d) :
    text.toList.count c = 0 :=
  List.count_eq_zero.mpr fun hmem => ne_of_isNumberChar hc (h c hmem) rfl

theorem count_of_isName (hc : c ∈ parenthesisMarks) (h : isName text = true) :
    text.toList.count c = 0 := by
  refine List.count_eq_zero.mpr fun hmem => ?_
  have hchar := List.all_eq_true.mp (Bool.and_eq_true_iff.mp h).1 c hmem
  rw [isNameChar_parenthesis hc] at hchar
  exact nomatch hchar

theorem count_float (hc : c ∈ parenthesisMarks) {x : Double} (hx : x.isFinite = true) :
    (x.literalText ++ "f").toList.count c = 0 := by
  cases x with
  | nan | infinite => exact nomatch hx
  | finite negative m q fits =>
    have hf : ¬ 'f' = c := by
      rintro rfl
      exact absurd hc (by decide)
    have hnumber : (Binary.literalText (.finite negative m q fits)).toList.count c = 0 :=
      count_of_isNumberChar hc (numberChars_finiteLiteral negative m q)
    rw [String.toList_append, List.count_append, hnumber]
    simp [hf]

end SourceTexts

section Counting

variable {level : Nat} {lexemes : List Lexeme} {e l r : Program} {op : Operator}
  {style : SourceStyle} {depth : Nat}

theorem writable_of_child {n c : Program} (h : ∀ a ∈ n.subterms, a.isWritable = true)
    (hc : c ∈ n.children) : ∀ a ∈ c.subterms, a.isWritable = true :=
  fun a ha => h a (Node.mem_subterms_of_child hc ha)

theorem count_source_sign (op : Operator) (e : Program) (style : SourceStyle) (depth : Nat) :
    ((Node.apply () op [e]).source style depth).toList.count '(' =
      (e.asOperand op .right (e.source style depth)).toList.count '(' := by
  simp [Node.source, Node.withSources, Operator.source, List.count_append, op.count_symbol]

theorem count_source_binary (op : Operator) (l r : Program) (style : SourceStyle) (depth : Nat) :
    ((Node.apply () op [l, r]).source style depth).toList.count '(' =
      (l.asOperand op .left (l.source style depth)).toList.count '(' +
        (r.asOperand op .right (r.source style depth)).toList.count '(' := by
  simp [Node.source, Node.withSources, Operator.source, List.count_append, op.count_symbol]

/-- A derivation of an expression has a pair of parentheses for each that the source text has, and
one more where the level is tighter than the expression. -/
theorem Derives.count_source_le (h : Derives level lexemes e)
    (hwritable : ∀ n ∈ e.subterms, n.isWritable = true) (style : SourceStyle) (depth : Nat) :
    (e.source style depth).toList.count '(' + (if e.level < level then 1 else 0) ≤
      lexemes.count (.mark '(') := by
  have hmem : '(' ∈ parenthesisMarks := by decide
  have hself := hwritable e (Node.self_mem_subterms e)
  induction h with
  | int n =>
    have hlevel : ¬ (Node.int () n).level < tightest := Nat.lt_irrefl _
    rw [Node.source, count_of_isNumberChar hmem (numberChars_int n.toInt), if_neg hlevel]
    exact Nat.zero_le _
  | float x =>
    have hlevel : ¬ (Node.float () x).level < tightest := Nat.lt_irrefl _
    rw [Node.source, count_float hmem hself, if_neg hlevel]
    exact Nat.zero_le _
  | name name =>
    have hlevel : ¬ (Node.var () name).level < tightest := Nat.lt_irrefl _
    rw [Node.source, count_of_isName hmem hself, if_neg hlevel]
    exact Nat.zero_le _
  | @parentheses lexemes e _ ih =>
    have hinside := ih hwritable hself
    have hcount : (Lexeme.mark '(' :: lexemes ++ [Lexeme.mark ')']).count (Lexeme.mark '(') =
        lexemes.count (.mark '(') + 1 := by
      simp
    rw [hcount]
    split <;> omega
  | @sign op lexemes e _ _ ih =>
    have hbelow := writable_of_child (c := e) hwritable (List.mem_singleton_self e)
    have hoperand := ih hbelow (hbelow e (Node.self_mem_subterms e))
    have hset := count_asOperand_le (e := e) op .right (e.source style depth)
    have hmark : Lexeme.mark op.mark ≠ .mark '(' := by simpa using op.mark_ne_parenthesis hmem
    have hlevel : ¬ (Node.apply () op [e]).level < op.precedence := Nat.lt_irrefl _
    rw [count_source_sign, if_neg hlevel, List.count_cons_of_ne hmark]
    omega
  | @binary op left right l r _ _ _ ihl ihr =>
    have hbelowl := writable_of_child (c := l) hwritable (List.mem_cons_self ..)
    have hbelowr := writable_of_child (c := r) hwritable (by simp [Node.children])
    have hl := ihl hbelowl (hbelowl l (Node.self_mem_subterms l))
    have hr := ihr hbelowr (hbelowr r (Node.self_mem_subterms r))
    have hsetl := count_asOperand_le (e := l) op .left (l.source style depth)
    have hsetr := count_asOperand_le (e := r) op .right (r.source style depth)
    have hmark : Lexeme.mark op.mark ≠ .mark '(' := by simpa using op.mark_ne_parenthesis hmem
    have hlevel : ¬ (Node.apply () op [l, r]).level < op.precedence := Nat.lt_irrefl _
    rw [count_source_binary, if_neg hlevel, List.count_append, List.count_cons_of_ne hmark]
    omega
  | @assign name lexemes e _ ih =>
    have hbelow := writable_of_child (c := e) hwritable (List.mem_singleton_self e)
    have hvalue := ih hbelow (hbelow e (Node.self_mem_subterms e))
    have hname : name.toList.count '(' = 0 := count_of_isName hmem hself
    have hsource : ((Node.assign () name e).source style depth).toList.count '(' =
        (e.source style depth).toList.count '(' := by
      simp [Node.source, List.count_append, hname]
    rw [hsource]
    simpa using hvalue
  | @tighter level lexemes e _ ih =>
    have hinside := ih hwritable hself
    split at hinside <;> split <;> omega

end Counting

theorem count_without_pair {text before inside after : List Char}
    (htext : text = before ++ '(' :: inside ++ ')' :: after) :
    (before ++ inside ++ after).count '(' + 1 = text.count '(' := by
  rw [htext]
  simp only [List.count_append, List.count_cons_self, List.count_cons_of_ne (by decide : ')' ≠ '(')]
  omega

/-- The source text of a writable expression reads as the expression, and every text that does has
at least as many pairs of parentheses. Without any of its pairs the source text does not read as
the expression. -/
theorem source_has_fewest_parentheses {e : Program} (he : IsExpr e)
    (hwritable : ∀ n ∈ e.subterms, n.isWritable = true) (style : SourceStyle) (depth : Nat) :
    (∃ lexemes, lexemes? (e.source style depth) = some lexemes ∧ Derives 0 lexemes e) ∧
    (∀ text lexemes, lexemes? text = some lexemes → Derives 0 lexemes e →
      text.toList.count ')' = text.toList.count '(' ∧
      (e.source style depth).toList.count '(' ≤ text.toList.count '(') ∧
    ∀ before inside after,
      (e.source style depth).toList = before ++ '(' :: inside ++ ')' :: after →
      ∀ lexemes, lexemes? (String.ofList (before ++ inside ++ after)) = some lexemes →
        ¬ Derives 0 lexemes e := by
  have hleast {text : String} {lexemes : List Lexeme} (hread : lexemes? text = some lexemes)
      (hderives : Derives 0 lexemes e) :
      (e.source style depth).toList.count '(' ≤ text.toList.count '(' := by
    have hcount := hderives.count_source_le hwritable style depth
    rw [if_neg (Nat.not_lt_zero _), Nat.add_zero] at hcount
    rwa [lexemes?_count (by decide) hread]
  refine ⟨?_, ?_, ?_⟩
  · obtain ⟨lexemes, htext, hlegible, hderives⟩ :=
      (source_spells he hwritable style depth).looser (Nat.zero_le _)
    exact ⟨lexemes, lexemes?_of_spaced hlegible htext, hderives⟩
  · intro text lexemes hread hderives
    refine ⟨?_, hleast hread hderives⟩
    rw [lexemes?_count (by decide) hread, lexemes?_count (by decide) hread, hderives.count_close]
  · intro before inside after htext lexemes hread hderives
    have hle := hleast hread hderives
    have hless := count_without_pair htext
    rw [String.toList_ofList] at hle
    omega

/-- A difference in a product, a difference on the side away from which differences group, and an
assignment behind a sign. -/
def groupedProduct : Program :=
  .apply () .mult [
    .apply () .minus2 [.var () "a", .apply () .minus2 [.var () "b", .var () "c"]],
    .apply () .minus1 [.assign () "i" (.int () 3)]]

theorem groupedProduct_needs_three_pairs :
    IsExpr groupedProduct ∧ (∀ n ∈ groupedProduct.subterms, n.isWritable = true) ∧
      groupedProduct.source {} 0 = "( a - ( b - c ) ) * - ( i = 3 )" ∧
      (∀ text lexemes, lexemes? text = some lexemes → Derives 0 lexemes groupedProduct →
        text.toList.count ')' = text.toList.count '(' ∧ 3 ≤ text.toList.count '(') ∧
      ∀ lexemes, lexemes? "( a -  b - c  ) * - ( i = 3 )" = some lexemes →
        ¬ Derives 0 lexemes groupedProduct := by
  have he : IsExpr groupedProduct :=
    .pair () .mult
      (.pair () .minus2 (.var () "a") (.pair () .minus2 (.var () "b") (.var () "c")))
      (.single () .minus1 (.assign () "i" (.int () 3)))
  have hwritable : ∀ n ∈ groupedProduct.subterms, n.isWritable = true := by
    refine List.all_eq_true.mp ?_
    decide +kernel
  have htext : groupedProduct.source {} 0 = "( a - ( b - c ) ) * - ( i = 3 )" := by
    decide +kernel
  obtain ⟨-, hleast, hneeded⟩ := source_has_fewest_parentheses he hwritable {} 0
  rw [htext] at hleast hneeded
  exact ⟨he, hwritable, htext, hleast,
    hneeded "( a - ".toList " b - c ".toList " ) * - ( i = 3 )".toList (by decide)⟩

end ProgramTrees
