import ProgramTrees.Proofs.Flattening
import ProgramTrees.Proofs.SourceCharacters
import ProgramTrees.Proofs.TextLiterals

namespace ProgramTrees

/-- What stands between statements. -/
def isGap (c : Char) : Bool :=
  c = ' ' || c = '\n' || c = ';'

inductive SourceToken where
  | statement (s : Program)
  | enter (condition : Program)
  | leave
  | finish

/-- The statement that lexemes make. Two names in front are those of a declaration. -/
def lexedStatement? : List Lexeme → Option Program
  | .name word :: .name name :: rest =>
    (Ty.ofName? word).bind fun ty =>
      match rest with
      | [] => some (.declare () ty name none)
      | .mark '=' :: value => (readExpression? value).map fun e => .declare () ty name (some e)
      | _ => none
  | lexemes => readExpression? lexemes

/-- A declaration or an assignment, up to its terminator. -/
def plainToken? (text : List Char) : Option (SourceToken × List Char) :=
  ((lexemes? (String.ofList (text.takeWhile (· ≠ ';')))).bind lexedStatement?).map
    fun s => (.statement s, text.dropWhile (· ≠ ';'))

/-- A call of `println` after the literal in it: a value ends with the last parenthesis before the
terminator. -/
def argumentToken? (literal : String) : List Char → Option (SourceToken × List Char)
  | ')' :: rest => some (.statement (.print () literal none), rest)
  | ' ' :: '+' :: value =>
    ((lexemes? (String.ofList (value.takeWhile (· ≠ ';')).dropLast)).bind readExpression?).map
      fun e => (.statement (.print () literal (some e)), value.dropWhile (· ≠ ';'))
  | _ => none

/-- A call of `println` after the first point in it. -/
def callToken? (text : List Char) : Option (SourceToken × List Char) :=
  (textLiteral? (text.dropWhile (· ≠ '"'))).bind fun (literal, rest) => argumentToken? literal rest

/-- The head of a loop after its first parenthesis. -/
def loopToken? (text : List Char) : Option (SourceToken × List Char) :=
  ((lexemes? (String.ofList (text.takeWhile (· ≠ '>')))).bind readExpression?).map
    fun e => (.enter e, (text.dropWhile (· ≠ '\x7b')).tail)

/-- What a text begins with, by what follows its first word. -/
def wordToken? (text : List Char) : List Char → Option (SourceToken × List Char)
  | '.' :: rest => callToken? rest
  | ' ' :: '(' :: ' ' :: rest => loopToken? rest
  | _ => plainToken? text

/-- What a text begins with, and the rest of the text. -/
def token? (text : List Char) : Option (SourceToken × List Char) :=
  match text.dropWhile isGap with
  | [] => some (.finish, [])
  | '\x7d' :: rest => some (.leave, rest)
  | text => wordToken? text (text.dropWhile isNameChar)

/-- A text consists of statements up to its end, or up to a brace that closes no loop in it; what
follows the brace is left. -/
inductive Reads : List Char → List Program → Option (List Char) → Prop where
  | finish {text rest : List Char} : token? text = some (.finish, rest) → Reads text [] none
  | leave {text rest : List Char} : token? text = some (.leave, rest) → Reads text [] (some rest)
  | statement {text rest : List Char} {s : Program} {ss : List Program}
      {left : Option (List Char)} : token? text = some (.statement s, rest) →
      Reads rest ss left → Reads text (s :: ss) left
  | loop {text inside rest : List Char} {condition : Program} {body ss : List Program}
      {left : Option (List Char)} : token? text = some (.enter condition, inside) →
      Reads inside body (some rest) → Reads rest ss left →
      Reads text (.loop () condition (Node.block () body) :: ss) left

theorem Reads.unique {text : List Char} {ss ss' : List Program}
    {left left' : Option (List Char)} (h : Reads text ss left) (h' : Reads text ss' left') :
    ss = ss' ∧ left = left' := by
  induction h generalizing ss' left' with
  | finish htoken =>
    cases h' with
    | finish => exact ⟨rfl, rfl⟩
    | leave htoken' | statement htoken' | loop htoken' =>
      exact nomatch htoken.symm.trans htoken'
  | leave htoken =>
    cases h' with
    | leave htoken' =>
      have heq := Option.some.inj (htoken.symm.trans htoken')
      exact ⟨rfl, congrArg (fun x => some x.2) heq⟩
    | finish htoken' | statement htoken' | loop htoken' =>
      exact nomatch htoken.symm.trans htoken'
  | statement htoken _ ih =>
    cases h' with
    | statement htoken' hrest' =>
      obtain ⟨hs, rfl⟩ := Prod.mk.inj (Option.some.inj (htoken.symm.trans htoken'))
      obtain ⟨rfl, rfl⟩ := ih hrest'
      rw [SourceToken.statement.inj hs]
      exact ⟨rfl, rfl⟩
    | finish htoken' | leave htoken' | loop htoken' =>
      exact nomatch htoken.symm.trans htoken'
  | loop htoken _ _ ihbody ihrest =>
    cases h' with
    | loop htoken' hbody' hrest' =>
      obtain ⟨hcondition, rfl⟩ := Prod.mk.inj (Option.some.inj (htoken.symm.trans htoken'))
      obtain ⟨rfl, heq⟩ := ihbody hbody'
      obtain rfl := Option.some.inj heq
      obtain ⟨rfl, rfl⟩ := ihrest hrest'
      rw [SourceToken.enter.inj hcondition]
      exact ⟨rfl, rfl⟩
    | finish htoken' | leave htoken' | statement htoken' =>
      exact nomatch htoken.symm.trans htoken'

section Gaps

variable {gap text : List Char}

theorem token?_gap (hgap : ∀ c ∈ gap, isGap c = true) : token? (gap ++ text) = token? text := by
  rw [token?, token?, List.dropWhile_append_of_pos hgap]

theorem Reads.after_gap {ss : List Program} {left : Option (List Char)}
    (hgap : ∀ c ∈ gap, isGap c = true) (h : Reads text ss left) : Reads (gap ++ text) ss left := by
  have htoken : token? (gap ++ text) = token? text := token?_gap hgap
  cases h with
  | finish h => exact .finish (htoken.trans h)
  | leave h => exact .leave (htoken.trans h)
  | statement h hrest => exact .statement (htoken.trans h) hrest
  | loop h hbody hrest => exact .loop (htoken.trans h) hbody hrest

end Gaps

/-- What follows a statement that is no loop: the end of the text or a terminator. -/
def EndsStatement (rest : List Char) : Prop :=
  ∀ c ∈ rest.head?, c = ';'

section Tokens

variable {text rest : List Char}

theorem token?_word {word : List Char} (hword : ∀ c ∈ word, isNameChar c = true) (hne : word ≠ [])
    (hrest : ∀ c ∈ rest.head?, isNameChar c = false) :
    token? (word ++ rest) = wordToken? (word ++ rest) rest := by
  obtain ⟨c, t, rfl⟩ := List.exists_cons_of_ne_nil hne
  have hc : isNameChar c = true := hword c (by simp)
  have hgap : (c :: t ++ rest).dropWhile isGap = c :: (t ++ rest) := by
    refine List.dropWhile_cons_of_neg fun hgap => ?_
    simp only [isGap, Bool.or_eq_true, decide_eq_true_eq] at hgap
    rcases hgap with (rfl | rfl) | rfl <;> exact nomatch hc
  have hbrace : c ≠ '\x7d' := by
    rintro rfl
    exact nomatch hc
  have hdrop : (c :: (t ++ rest)).dropWhile isNameChar = rest := by
    rw [← List.cons_append, List.dropWhile_append_of_pos hword]
    cases rest with
    | nil => rfl
    | cons d rest => rw [List.dropWhile_cons_of_neg (by simp [hrest d rfl])]
  rw [token?, hgap]
  split
  next h => exact nomatch h
  next h => exact absurd (List.cons.inj h).1 hbrace
  next => rw [hdrop, List.cons_append]

theorem token?_plain {source : String} {name : String} {second : Lexeme} {lexemes : List Lexeme}
    {s : Program} (htext : ' ' :: source.toList = spaced (.name name :: second :: lexemes))
    (hlegible : ∀ l ∈ .name name :: second :: lexemes, l.isLegible = true)
    (hsecond : second.spelling.toList.head? ≠ some '(')
    (hs : lexedStatement? (.name name :: second :: lexemes) = some s) (hrest : EndsStatement rest) :
    token? (source.toList ++ rest) = some (.statement s, rest) := by
  have hname : isName name = true := hlegible (.name name) (by simp)
  obtain ⟨hall, hhead⟩ := Bool.and_eq_true_iff.mp hname
  have hsource : source.toList = name.toList ++ spaced (second :: lexemes) := by
    have hcons : ' ' :: source.toList = ' ' :: (name.toList ++ spaced (second :: lexemes)) := by
      rw [htext]
      rfl
    exact (List.cons.inj hcons).2
  have hword : token? (source.toList ++ rest) =
      wordToken? (source.toList ++ rest) (spaced (second :: lexemes) ++ rest) := by
    rw [hsource, List.append_assoc]
    refine token?_word (List.all_eq_true.mp hall) ?_ ?_
    · intro hnil
      rw [hnil] at hhead
      simp at hhead
    · rintro c hc
      obtain rfl : ' ' = c := Option.some.inj hc
      rfl
  have hplain : wordToken? (source.toList ++ rest) (spaced (second :: lexemes) ++ rest) =
      plainToken? (source.toList ++ rest) := by
    obtain ⟨c, t, hspelling⟩ := List.exists_cons_of_ne_nil
      (spelling_ne_nil (hlegible second (by simp)))
    rw [hspelling] at hsecond
    have hspaced : spaced (second :: lexemes) ++ rest =
        ' ' :: c :: (t ++ spaced lexemes ++ rest) := by
      simp [spaced, hspelling]
    rw [hspaced, wordToken?]
    · simp
    · rintro rest' heq
      exact hsecond (congrArg some (List.cons.inj (List.cons.inj heq).2).1)
  obtain ⟨htake, hdrop⟩ := takeWhile_until
    (ne_of_sourceChars (show isSourceChar ';' = false from rfl)
      (sourceChars_of_spaced htext hlegible)) hrest
  rw [hword, hplain, plainToken?, htake, hdrop, String.ofList_toList,
    lexemes?_of_spaced hlegible htext, Option.bind_some, hs]
  rfl

theorem token?_assign {name value : String} {e : Program} (hname : isName name = true)
    (hvalue : Spells value 0 e) (hrest : EndsStatement rest) :
    token? ((name ++ " = " ++ value).toList ++ rest) =
      some (.statement (.assign () name e), rest) := by
  obtain ⟨lexemes, htext, hlegible, he⟩ := hvalue
  refine token?_plain (spaced_assign name htext) ?_ (by decide) ?_ hrest
  · exact List.forall_mem_cons.mpr ⟨hname, List.forall_mem_cons.mpr ⟨rfl, hlegible⟩⟩
  · exact readExpression?_eq_some_iff.mpr (.assign he)

theorem Ty.ofName?_name (ty : Ty) : Ty.ofName? ty.name = some ty := by
  cases ty <;> rfl

theorem Ty.isName_name (ty : Ty) : isName ty.name = true := by
  cases ty <;> rfl

theorem head?_name_ne {name : String} (hname : isName name = true) :
    (Lexeme.name name).spelling.toList.head? ≠ some '(' := by
  intro hhead
  have hc : isNameChar '(' = true :=
    List.all_eq_true.mp (Bool.and_eq_true_iff.mp hname).1 '(' (List.mem_of_mem_head? hhead)
  exact nomatch hc

theorem token?_declare {name : String} (ty : Ty) (hname : isName name = true)
    (hrest : EndsStatement rest) :
    token? ((ty.name ++ " " ++ name).toList ++ rest) =
      some (.statement (.declare () ty name none), rest) := by
  have htext : ' ' :: (ty.name ++ " " ++ name).toList = spaced [.name ty.name, .name name] := by
    simp [spaced, Lexeme.spelling]
  refine token?_plain htext ?_ (head?_name_ne hname) ?_ hrest
  · exact List.forall_mem_cons.mpr ⟨ty.isName_name, List.forall_mem_singleton.mpr hname⟩
  · rw [lexedStatement?, ty.ofName?_name]
    rfl

theorem token?_initialize {name value : String} {e : Program} (ty : Ty)
    (hname : isName name = true) (hvalue : Spells value 0 e) (hrest : EndsStatement rest) :
    token? ((ty.name ++ " " ++ name ++ " = " ++ value).toList ++ rest) =
      some (.statement (.declare () ty name (some e)), rest) := by
  obtain ⟨lexemes, htext, hlegible, he⟩ := hvalue
  have hassign := spaced_assign name htext
  have htext' : ' ' :: (ty.name ++ " " ++ name ++ " = " ++ value).toList =
      spaced (.name ty.name :: .name name :: .mark '=' :: lexemes) := by
    have hspaced : spaced (.name ty.name :: .name name :: .mark '=' :: lexemes) =
        ' ' :: ty.name.toList ++ spaced (.name name :: .mark '=' :: lexemes) := rfl
    rw [hspaced, ← hassign]
    simp
  refine token?_plain htext' ?_ (head?_name_ne hname) ?_ hrest
  · exact List.forall_mem_cons.mpr ⟨ty.isName_name, List.forall_mem_cons.mpr
      ⟨hname, List.forall_mem_cons.mpr ⟨rfl, hlegible⟩⟩⟩
  · have hread := readExpression?_eq_some_iff.mpr he
    rw [lexedStatement?, ty.ofName?_name, Option.bind_some]
    simp only [hread, Option.map_some]

/-- A call of `println` is told by the point after its first word. -/
theorem token?_call (text : String) {argument : String} {rest after : List Char}
    (hargument : argument.toList ++ ')' :: rest = (textLiteral text).toList ++ after) :
    token? ((printCall argument).toList ++ rest) = argumentToken? text after := by
  have htext : (printCall argument).toList ++ rest =
      "System".toList ++ '.' :: ("out.println(".toList ++ (argument.toList ++ ')' :: rest)) := by
    simp [printCall, String.join]
  have hword : ∀ c ∈ "System".toList, isNameChar c = true := List.all_eq_true.mp (by decide)
  have hquote : ∀ c ∈ "out.println(".toList, decide (c ≠ '"') = true :=
    List.all_eq_true.mp (by decide)
  have hliteral : ((textLiteral text).toList ++ after).dropWhile (· ≠ '"') =
      (textLiteral text).toList ++ after := by
    simp [textLiteral]
  have hcall : token? ((printCall argument).toList ++ rest) =
      callToken? ("out.println(".toList ++ (argument.toList ++ ')' :: rest)) := by
    rw [htext, token?_word hword (by decide)]
    · rfl
    · rintro c hc
      obtain rfl : '.' = c := Option.some.inj hc
      rfl
  rw [hcall, callToken?, List.dropWhile_append_of_pos hquote, hargument, hliteral,
    textLiteral?_append, Option.bind_some]

theorem token?_print (text : String) (rest : List Char) :
    token? ((printCall (textLiteral text)).toList ++ rest) =
      some (.statement (.print () text none), rest) := by
  rw [token?_call text rfl, argumentToken?]

theorem token?_printValue {value : String} {e : Program} (text : String)
    (hvalue : Spells value 0 e) (hrest : EndsStatement rest) :
    token? ((printCall (textLiteral text ++ " + " ++ value)).toList ++ rest) =
      some (.statement (.print () text (some e)), rest) := by
  obtain ⟨lexemes, htext, hlegible, he⟩ := hvalue
  have hargument : (textLiteral text ++ " + " ++ value).toList ++ ')' :: rest =
      (textLiteral text).toList ++ ' ' :: '+' :: ((spaced lexemes ++ [')']) ++ rest) := by
    rw [← htext]
    simp
  have hchars : ∀ c ∈ spaced lexemes ++ [')'], isSourceChar c = true :=
    List.forall_mem_append.mpr
      ⟨sourceChars_spaced hlegible, List.forall_mem_singleton.mpr rfl⟩
  obtain ⟨htake, hdrop⟩ := takeWhile_until
    (ne_of_sourceChars (show isSourceChar ';' = false from rfl) hchars) hrest
  rw [token?_call text hargument, argumentToken?, htake, hdrop, List.dropLast_concat,
    lexemes?_spaced hlegible, Option.bind_some, readExpression?_eq_some_iff.mpr he]
  rfl

theorem token?_loop {condition : String} {e : Program} (hcondition : Spells condition 0 e)
    (rest : List Char) :
    token? ("while ( ".toList ++ (condition.toList ++ (" >= 0 ) \x7b".toList ++ rest))) =
      some (.enter e, rest) := by
  obtain ⟨lexemes, htext, hlegible, he⟩ := hcondition
  have hword : ∀ c ∈ "while".toList, isNameChar c = true := List.all_eq_true.mp (by decide)
  have hhead : token? ("while ( ".toList ++ (condition.toList ++ (" >= 0 ) \x7b".toList ++ rest))) =
      loopToken? (condition.toList ++ (" >= 0 ) \x7b".toList ++ rest)) := by
    refine (token?_word hword (by decide) ?_).trans rfl
    rintro c hc
    obtain rfl : ' ' = c := Option.some.inj hc
    rfl
  have htest : condition.toList ++ (" >= 0 ) \x7b".toList ++ rest) =
      condition.toList ++ [' '] ++ (">= 0 ) \x7b".toList ++ rest) := by
    simp
  have hbrace : condition.toList ++ (" >= 0 ) \x7b".toList ++ rest) =
      condition.toList ++ " >= 0 ) ".toList ++ '\x7b' :: rest := by
    simp
  have hsigns : '\x7b' ∉ " >= 0 ) ".toList := by decide
  have hopening : ∀ c ∈ condition.toList ++ " >= 0 ) ".toList, c ≠ '\x7b' :=
    List.forall_mem_append.mpr ⟨ne_of_sourceChars rfl (sourceChars_of_spaced htext hlegible),
      fun _ hc => ne_of_mem_of_not_mem hc hsigns⟩
  have hdrop : (condition.toList ++ (" >= 0 ) \x7b".toList ++ rest)).dropWhile (· ≠ '\x7b') =
      '\x7b' :: rest := by
    rw [hbrace]
    exact (takeWhile_until hopening (by simp)).2
  have hread : lexemes? (String.ofList
      ((condition.toList ++ (" >= 0 ) \x7b".toList ++ rest)).takeWhile (· ≠ '>'))) =
        some lexemes := by
    rw [htest]
    exact (lexemes?_before_sign htext hlegible (by simp)).1
  rw [hhead, loopToken?, hdrop, hread, Option.bind_some, readExpression?_eq_some_iff.mpr he]
  rfl

end Tokens

section Statements

variable {s : Program} {rest : List Char} {ss : List Program} {left : Option (List Char)}

/-- The source text of a statement is read as its statements, whatever can follow it. -/
def SourceReads (s : Program) : Prop :=
  ∀ depth rest ss left, s.kind = .sequence ∨ s.kind = .whileLoop ∨ EndsStatement rest →
    Reads rest ss left → Reads ((s.source {} depth).toList ++ rest) (s.flat ++ ss) left

theorem gap_indentation (depth : Nat) :
    ∀ c ∈ (SourceStyle.indentation {} depth).toList, isGap c = true := by
  have hindent : ∀ c ∈ "  ".toList, isGap c = true := List.all_eq_true.mp (by decide)
  intro c hc
  rw [SourceStyle.indentation, String.toList_join] at hc
  obtain ⟨indent, hmem, hc⟩ := List.mem_flatMap.mp hc
  rw [List.eq_of_mem_replicate hmem] at hc
  exact hindent c hc

theorem SourceReads.line (h : SourceReads s) (depth : Nat) (hrest : Reads rest ss left) :
    Reads ((SourceStyle.line {} depth s.kind (s.source {} depth)).toList ++ rest) (s.flat ++ ss)
      left := by
  by_cases hloop : s.kind = .whileLoop
  · have hline : (SourceStyle.line {} depth s.kind (s.source {} depth)).toList ++ rest =
        (SourceStyle.indentation {} depth).toList ++
          ((s.source {} depth).toList ++ (['\n'] ++ rest)) := by
      simp [SourceStyle.line, hloop]
    have hgap : ∀ c ∈ ['\n'], isGap c = true := List.all_eq_true.mp (by decide)
    rw [hline]
    exact (h depth _ ss left (.inr (.inl hloop)) (hrest.after_gap hgap)).after_gap
      (gap_indentation depth)
  · have hline : (SourceStyle.line {} depth s.kind (s.source {} depth)).toList ++ rest =
        (SourceStyle.indentation {} depth).toList ++
          ((s.source {} depth).toList ++ ([';', '\n'] ++ rest)) := by
      simp [SourceStyle.line, hloop]
    have hgap : ∀ c ∈ [';', '\n'], isGap c = true := List.all_eq_true.mp (by decide)
    have hends : EndsStatement ([';', '\n'] ++ rest) := by
      rintro c ⟨⟩
      rfl
    rw [hline]
    exact (h depth _ ss left (.inr (.inr hends)) (hrest.after_gap hgap)).after_gap
      (gap_indentation depth)

theorem reads_lines {statements : List Program} (ih : ∀ s ∈ statements, SourceReads s)
    (depth : Nat) (hrest : Reads rest ss left) :
    Reads ((Node.lines {} depth statements).toList ++ rest) (Node.allFlat statements ++ ss)
      left := by
  induction statements with
  | nil => exact hrest
  | cons s statements ih' =>
    obtain ⟨hs, hstatements⟩ := List.forall_mem_cons.mp ih
    rw [Node.lines, String.toList_append, List.append_assoc, Node.allFlat, List.append_assoc]
    exact hs.line depth (ih' hstatements)

theorem SourceReads.block (h : SourceReads s) (depth : Nat) (hrest : Reads rest ss left) :
    Reads ((SourceStyle.block {} depth s.kind (s.source {} depth)).toList ++ rest) (s.flat ++ ss)
      left := by
  rw [SourceStyle.block]
  split
  next hkind => exact h depth rest ss left (.inl hkind) hrest
  next => exact h.line depth hrest

theorem SourceReads.of_token (hflat : s.flat = [s])
    (h : ∀ depth rest, EndsStatement rest →
      token? ((s.source {} depth).toList ++ rest) = some (.statement s, rest))
    (hkind : s.kind ≠ .sequence ∧ s.kind ≠ .whileLoop) : SourceReads s := by
  intro depth rest ss left hends hrest
  have hends : EndsStatement rest := (hends.resolve_left hkind.1).resolve_left hkind.2
  rw [hflat]
  exact .statement (h depth rest hends) hrest

/-- The source text of every program that can be written is read as its statements. -/
theorem reads_source (hs : IsStmt s) (hwritable : ∀ n ∈ s.subterms, n.isWritable = true)
    (hnames : ∀ name ∈ s.names, isName name = true) : SourceReads s := by
  have hbelow {s c : Program} (hc : c ∈ s.children)
      (hwritable : ∀ n ∈ s.subterms, n.isWritable = true) :
      ∀ n ∈ c.subterms, n.isWritable = true :=
    fun n hn => hwritable n (Node.mem_subterms_of_child hc hn)
  have hspells {e : Program} (he : IsExpr e) (hwritable : ∀ n ∈ e.subterms, n.isWritable = true)
      (depth : Nat) : Spells (e.source {} depth) 0 e :=
    (source_spells he hwritable {} depth).looser (Nat.zero_le _)
  induction hs with
  | @assign tag name value hvalue =>
    have hname : isName name = true := hwritable _ (Node.self_mem_subterms _)
    have hsource := hspells hvalue (hbelow (by simp [Node.children]) hwritable)
    exact .of_token rfl (fun depth _ hends => token?_assign hname (hsource depth) hends)
      (by simp [Node.kind])
  | @sequence tag statements _ ih =>
    intro depth rest ss left _ hrest
    refine reads_lines (fun s hs => ?_) depth hrest
    have hc : s ∈ (Node.sequence tag statements).children := hs
    exact ih s hs (hbelow hc hwritable) fun name hname =>
      hnames name (Node.mem_names_of_child hc hname)
  | @declare tag ty name value hvalue =>
    have hname : isName name = true :=
      hnames name (List.mem_filterMap.mpr ⟨_, Node.self_mem_subterms _, rfl⟩)
    cases value with
    | none =>
      exact .of_token rfl (fun _ _ hends => token?_declare ty hname hends) (by simp [Node.kind])
    | some value =>
      have hsource := hspells (hvalue value rfl) (hbelow (by simp [Node.children]) hwritable)
      exact .of_token rfl (fun depth _ hends => token?_initialize ty hname (hsource depth) hends)
        (by simp [Node.kind])
  | @print tag text value hvalue =>
    cases value with
    | none => exact .of_token rfl (fun _ rest _ => token?_print text rest) (by simp [Node.kind])
    | some value =>
      have hsource := hspells (hvalue value rfl) (hbelow (by simp [Node.children]) hwritable)
      exact .of_token rfl (fun depth _ hends => token?_printValue text (hsource depth) hends)
        (by simp [Node.kind])
  | @loop tag condition body hcondition _ ih =>
    intro depth rest ss left _ hrest
    have hc : body ∈ (Node.loop tag condition body).children := by simp [Node.children]
    have htest := hspells hcondition (hbelow (by simp [Node.children]) hwritable) depth
    have hbody := ih (hbelow hc hwritable) fun name hname =>
      hnames name (Node.mem_names_of_child hc hname)
    have hleave : Reads ((SourceStyle.indentation {} depth).toList ++ '\x7d' :: rest) []
        (some rest) := .after_gap (gap_indentation depth) (.leave rfl)
    have hinside := hbody.block (depth + 1) hleave
    have hnewline : ∀ c ∈ ['\n'], isGap c = true := List.all_eq_true.mp (by decide)
    have hsource : ((Node.loop tag condition body).source {} depth).toList ++ rest =
        "while ( ".toList ++ ((condition.source {} depth).toList ++ (" >= 0 ) \x7b".toList ++
          (['\n'] ++ ((SourceStyle.block {} (depth + 1) body.kind
            (body.source {} (depth + 1))).toList ++
              ((SourceStyle.indentation {} depth).toList ++ '\x7d' :: rest))))) := by
      rw [Node.source, SourceStyle.loop, String.toList_join]
      simp
    rw [List.append_nil] at hinside
    rw [hsource]
    exact .loop (token?_loop htest _) (hinside.after_gap hnewline) hrest

end Statements

end ProgramTrees
