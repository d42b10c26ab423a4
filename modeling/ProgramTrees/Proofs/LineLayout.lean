import ProgramTrees.Proofs.SourceCharacters
import ProgramTrees.Proofs.Subterms
import ProgramTrees.Proofs.TextLines

namespace ProgramTrees

variable {τ : Type}

section OneLine

variable {style : SourceStyle} {depth : Nat}

theorem oneLine_of_sourceChars {text : String} (h : ∀ c ∈ text.toList, isSourceChar c = true) :
    OneLine text :=
  fun hbreak => ne_of_sourceChars (show isSourceChar '\n' = false from rfl) h '\n' hbreak rfl

theorem oneLine_of_numberChars {text : String} (h : ∀ c ∈ text.toList, IsNumberChar c) :
    OneLine text :=
  oneLine_of_sourceChars fun c hc => (h c hc).isSourceChar

theorem oneLine_name {name : String} (h : isName name = true) : OneLine name := by
  obtain ⟨hall, -⟩ := Bool.and_eq_true_iff.mp h
  exact oneLine_of_sourceChars fun c hc => isSourceChar_of_nameChar (List.all_eq_true.mp hall c hc)

theorem oneLine_literalText (x : Double) : OneLine x.literalText := by
  match x with
  | .nan => decide
  | .infinite negative => cases negative <;> decide
  | .finite negative m q _ => exact oneLine_of_numberChars (numberChars_finiteLiteral negative m q)

theorem oneLine_asOperand {op : Operator} {side : Side} {n : Node τ} {text : String}
    (h : OneLine text) : OneLine (n.asOperand op side text) := by
  unfold Node.asOperand
  split
  next =>
    unfold parenthesize
    rw [oneLine_append, oneLine_append]
    exact ⟨⟨by decide, h⟩, by decide⟩
  next => exact h

theorem oneLine_operation (op : Operator) {operands : List (Node τ × String)}
    (h : ∀ operand ∈ operands, OneLine operand.2) : OneLine (op.source operands) := by
  have hsymbol : OneLine op.symbol := by cases op <;> decide
  match operands, h with
  | [], _ =>
    rw [Operator.source, oneLine_append]
    exact ⟨hsymbol, by decide⟩
  | [(e, text)], h =>
    rw [Operator.source, oneLine_append, oneLine_append]
    exact ⟨⟨hsymbol, by decide⟩, oneLine_asOperand (h (e, text) (by simp))⟩
  | [(l, left), (r, right)], h =>
    rw [Operator.source]
    simp only [oneLine_append]
    exact ⟨⟨⟨⟨oneLine_asOperand (h (l, left) (by simp)), by decide⟩, hsymbol⟩, by decide⟩,
      oneLine_asOperand (h (r, right) (by simp))⟩
  | a :: b :: c :: operands, h =>
    have hparts : ∀ part ∈ (a :: b :: c :: operands).map (·.2), OneLine part :=
      List.forall_mem_map.mpr h
    rw [Operator.source]
    · simp only [oneLine_append]
      exact ⟨⟨⟨hsymbol, by decide⟩, oneLine_intercalate (by decide) hparts⟩, by decide⟩
    · exact nofun
    · exact nofun
    · exact nofun

theorem Node.withSources_eq (style : SourceStyle) (depth : Nat) (ns : List (Node τ)) :
    Node.withSources style depth ns = ns.map fun n => (n, n.source style depth) := by
  induction ns with
  | nil => rfl
  | cons n ns ih => rw [Node.withSources, ih, List.map_cons]

theorem oneLine_expression {e : Node τ} (he : IsExpr e)
    (hnames : ∀ name ∈ e.names, isName name = true) : OneLine (e.source style depth) := by
  induction he with
  | int tag n => exact oneLine_of_numberChars (numberChars_int n.toInt)
  | float tag x =>
    rw [Node.source, oneLine_append]
    exact ⟨oneLine_literalText x, by decide⟩
  | var tag name =>
    exact oneLine_name (hnames name (List.mem_filterMap.mpr ⟨_, Node.self_mem_subterms _, rfl⟩))
  | @apply tag op operands _ ih =>
    rw [Node.source, Node.withSources_eq]
    refine oneLine_operation op (List.forall_mem_map.mpr fun e he => ih e he ?_)
    have hchild : e ∈ (Node.apply tag op operands).children := he
    exact fun name hname => hnames name (Node.mem_names_of_child hchild hname)
  | @assign tag name value _ ih =>
    have hchild : value ∈ (Node.assign tag name value).children := by simp [Node.children]
    have hname : isName name = true :=
      hnames name (List.mem_filterMap.mpr ⟨_, Node.self_mem_subterms _, rfl⟩)
    rw [Node.source, oneLine_append, oneLine_append]
    exact ⟨⟨oneLine_name hname, by decide⟩,
      ih fun name hname => hnames name (Node.mem_names_of_child hchild hname)⟩

theorem oneLine_textLiteral (text : String) : OneLine (textLiteral text) := by
  have hchar (c : Char) : '\n' ∉ literalChar c := by
    unfold literalChar
    split
    next => decide
    next =>
      split
      next => decide
      next =>
        split
        next => decide
        next h => simpa using Ne.symm h
  have hinside : '\n' ∉ text.toList.flatMap literalChar := by
    intro h
    obtain ⟨c, -, hc⟩ := List.mem_flatMap.mp h
    exact hchar c hc
  unfold OneLine textLiteral
  rw [String.toList_ofList]
  simpa using hinside

theorem printCall_eq (argument : String) :
    printCall argument = "System.out.println(" ++ argument ++ ")" := by
  simp [printCall, String.join]

theorem oneLine_printCall {argument : String} (h : OneLine argument) :
    OneLine (printCall argument) := by
  rw [printCall_eq, oneLine_append, oneLine_append]
  exact ⟨⟨by decide, h⟩, by decide⟩

end OneLine

/-- What stands on a line: a statement with its terminator, the head of a loop, or its brace. -/
inductive LineContent where
  | statement (text : String)
  | head (condition : String)
  | brace

def LineContent.text : LineContent → String
  | .statement text => text ++ ";"
  | .head condition => "while ( " ++ condition ++ " >= 0 ) \x7b"
  | .brace => "\x7d"

/-- A line of a program, with the number of loops around it; each of them indents it by two
blanks. -/
structure ProgramLine where
  depth : Nat
  content : LineContent

def ProgramLine.chars (line : ProgramLine) : List Char :=
  List.replicate (2 * line.depth) ' ' ++ line.content.text.toList

mutual

/-- The lines of a statement inside `depth` loops. Sequences make no difference to them. -/
def Node.layout (depth : Nat) : Node τ → List ProgramLine
  | .sequence _ statements => Node.allLayout depth statements
  | .loop _ condition body =>
    ⟨depth, .head (condition.source {} depth)⟩ :: body.layout (depth + 1) ++ [⟨depth, .brace⟩]
  | s => [⟨depth, .statement (s.source {} depth)⟩]

def Node.allLayout (depth : Nat) : List (Node τ) → List ProgramLine
  | [] => []
  | s :: statements => s.layout depth ++ Node.allLayout depth statements

end

/-- No sequence stands directly in a sequence. -/
def Node.Unnested (n : Node τ) : Prop :=
  ∀ s ∈ n.subterms, s.kind = .sequence → ∀ c ∈ s.children, c.kind ≠ .sequence

instance (n : Node τ) : Decidable n.Unnested :=
  inferInstanceAs (Decidable (∀ s ∈ n.subterms, s.kind = .sequence →
    ∀ c ∈ s.children, c.kind ≠ .sequence))

/-- The text of a statement where one is expected: in a sequence, or as the body of a loop. -/
def Node.lineText (depth : Nat) (s : Node τ) : List Char :=
  (SourceStyle.line {} depth s.kind (s.source {} depth)).toList

def Node.blockText (depth : Nat) (s : Node τ) : List Char :=
  (SourceStyle.block {} depth s.kind (s.source {} depth)).toList

section Unnested

variable {n e : Node τ}

theorem unnested_iff : n.Unnested ↔
    (n.kind = .sequence → ∀ c ∈ n.children, c.kind ≠ .sequence) ∧ ∀ c ∈ n.children, c.Unnested := by
  constructor
  · intro h
    refine ⟨h n n.self_mem_subterms, ?_⟩
    exact fun c hc s hs => h s (Node.mem_subterms_of_child hc hs)
  · rintro ⟨hself, hbelow⟩ s hs
    rcases Node.mem_subterms.mp hs with rfl | ⟨c, hc, hs⟩
    · exact hself
    · exact hbelow c hc s hs

theorem IsExpr.unnested (he : IsExpr e) : e.Unnested := by
  induction he with
  | int | float | var => exact unnested_iff.mpr ⟨nofun, nofun⟩
  | apply _ _ _ ih => exact unnested_iff.mpr ⟨nofun, ih⟩
  | assign _ _ _ ih => exact unnested_iff.mpr ⟨nofun, List.forall_mem_singleton.mpr ih⟩

theorem unnested_loop {tag : τ} {condition body : Node τ} (hcondition : IsExpr condition) :
    (Node.loop tag condition body).Unnested ↔ body.Unnested := by
  rw [unnested_iff]
  simp [Node.kind, Node.children, hcondition.unnested]

theorem unnested_of_plain {s : Node τ} (hs : IsStmt s) (hsequence : s.kind ≠ .sequence)
    (hloop : s.kind ≠ .whileLoop) : s.Unnested := by
  refine unnested_iff.mpr ⟨fun h => absurd h hsequence, ?_⟩
  cases hs with
  | assign _ _ hvalue => exact List.forall_mem_singleton.mpr hvalue.unnested
  | sequence => exact absurd rfl hsequence
  | @declare _ _ _ value hvalue | @print _ _ value hvalue =>
    exact fun e he => (hvalue e (Option.mem_toList.mp he)).unnested
  | loop => exact absurd rfl hloop

end Unnested

/-- What holds of the statements without statements in them, and of a sequence and a loop if it
holds of the statements in them, holds of every statement. -/
@[elab_as_elim]
theorem IsStmt.plain_induction {motive : (s : Node τ) → IsStmt s → Prop}
    (plain : ∀ {s : Node τ} (hs : IsStmt s), s.kind ≠ .sequence → s.kind ≠ .whileLoop → motive s hs)
    (sequence : ∀ (tag : τ) {statements : List (Node τ)} (h : ∀ s ∈ statements, IsStmt s),
      (∀ s hs, motive s (h s hs)) → motive (.sequence tag statements) (.sequence tag h))
    (loop : ∀ (tag : τ) {condition body : Node τ} (hcondition : IsExpr condition)
      (hbody : IsStmt body), motive body hbody →
        motive (.loop tag condition body) (.loop tag hcondition hbody))
    {s : Node τ} (hs : IsStmt s) : motive s hs := by
  induction hs with
  | sequence tag h ih => exact sequence tag h ih
  | loop tag hcondition hbody ih => exact loop tag hcondition hbody ih
  | assign tag name hvalue =>
    exact plain (.assign tag name hvalue) (by simp [Node.kind]) (by simp [Node.kind])
  | declare tag ty name hvalue =>
    exact plain (.declare tag ty name hvalue) (by simp [Node.kind]) (by simp [Node.kind])
  | print tag text hvalue =>
    exact plain (.print tag text hvalue) (by simp [Node.kind]) (by simp [Node.kind])

section Contents

variable {depth : Nat} {s : Node τ}

/-- The text begins with a character of names. -/
def BeginsWord (text : String) : Prop :=
  ∃ c rest, text.toList = c :: rest ∧ isNameChar c = true

theorem BeginsWord.append {a : String} (h : BeginsWord a) (b : String) : BeginsWord (a ++ b) := by
  obtain ⟨c, rest, hcons, hc⟩ := h
  exact ⟨c, rest ++ b.toList, by rw [String.toList_append, hcons, List.cons_append], hc⟩

theorem beginsWord_name {name : String} (h : isName name = true) : BeginsWord name := by
  obtain ⟨hall, hhead⟩ := Bool.and_eq_true_iff.mp h
  obtain ⟨c, rest, hcons⟩ : ∃ c rest, name.toList = c :: rest := by
    cases hchars : name.toList with
    | nil => simp [hchars] at hhead
    | cons c rest => exact ⟨c, rest, rfl⟩
  exact ⟨c, rest, hcons, List.all_eq_true.mp hall c (by simp [hcons])⟩

theorem beginsWord_printCall (argument : String) : BeginsWord (printCall argument) := by
  rw [printCall_eq, String.append_assoc]
  exact BeginsWord.append ⟨'S', "ystem.out.println(".toList, rfl, rfl⟩ _

/-- A statement without statements in it has its text on one line, a word in front. -/
theorem plainStatement_source (hs : IsStmt s) (hnames : ∀ name ∈ s.names, isName name = true)
    (hsequence : s.kind ≠ .sequence) (hloop : s.kind ≠ .whileLoop) (depth : Nat) :
    OneLine (s.source {} depth) ∧ BeginsWord (s.source {} depth) := by
  have hself (name : String) (h : s.name? = some name) : isName name = true :=
    hnames name (List.mem_filterMap.mpr ⟨s, s.self_mem_subterms, h⟩)
  have hchild {e : Node τ} (he : IsExpr e) (hc : e ∈ s.children) : OneLine (e.source {} depth) :=
    oneLine_expression he fun name hname => hnames name (Node.mem_names_of_child hc hname)
  cases hs with
  | @assign tag name value hvalue =>
    have hname := hself name rfl
    have hone := hchild hvalue (by simp [Node.children])
    rw [Node.source, oneLine_append, oneLine_append, String.append_assoc]
    exact ⟨⟨⟨oneLine_name hname, by decide⟩, hone⟩, (beginsWord_name hname).append _⟩
  | sequence => exact absurd rfl hsequence
  | @declare tag ty name value hvalue =>
    have hname := hself name rfl
    have hty : BeginsWord ty.name := by cases ty <;> exact ⟨_, _, rfl, rfl⟩
    cases value with
    | none =>
      rw [Node.source, oneLine_append, oneLine_append, String.append_assoc]
      exact ⟨⟨⟨oneLine_ty ty, by decide⟩, oneLine_name hname⟩, hty.append _⟩
    | some value =>
      have hone := hchild (hvalue value rfl) (by simp [Node.children])
      rw [Node.source]
      simp only [oneLine_append]
      refine ⟨⟨⟨⟨⟨oneLine_ty ty, by decide⟩, oneLine_name hname⟩, by decide⟩, hone⟩, ?_⟩
      simp only [String.append_assoc]
      exact hty.append _
  | @print tag text value hvalue =>
    cases value with
    | none =>
      rw [Node.source]
      exact ⟨oneLine_printCall (oneLine_textLiteral text), beginsWord_printCall _⟩
    | some value =>
      have hone := hchild (hvalue value rfl) (by simp [Node.children])
      rw [Node.source]
      refine ⟨oneLine_printCall ?_, beginsWord_printCall _⟩
      rw [oneLine_append, oneLine_append]
      exact ⟨⟨oneLine_textLiteral text, by decide⟩, hone⟩
  | loop => exact absurd rfl hloop

/-- A line begins with a character that is no blank, and a statement on it is not empty. -/
def LineContent.Visible (content : LineContent) : Prop :=
  (∃ c rest, content.text.toList = c :: rest ∧ c.isWhitespace = false) ∧
    ∀ text, content = .statement text → text ≠ ""

theorem isWhitespace_of_nameChar {c : Char} (h : isNameChar c = true) : c.isWhitespace = false := by
  have hne (blank : Char) (hblank : isNameChar blank = false) : c ≠ blank := by
    rintro rfl
    exact nomatch h.symm.trans hblank
  simp [Char.isWhitespace, hne ' ' rfl, hne '\t' rfl, hne '\r' rfl, hne '\n' rfl]

theorem visible_statement {text : String} (h : BeginsWord text) :
    (LineContent.statement text).Visible := by
  obtain ⟨c, rest, hcons, hc⟩ := h.append ";"
  refine ⟨⟨c, rest, hcons, isWhitespace_of_nameChar hc⟩, ?_⟩
  intro text' heq hempty
  obtain rfl := LineContent.statement.inj heq
  obtain ⟨c', rest', hcons', -⟩ := h
  rw [hempty] at hcons'
  exact nomatch hcons'

theorem visible_head (condition : String) : (LineContent.head condition).Visible := by
  refine ⟨⟨'w', "hile ( ".toList ++ condition.toList ++ " >= 0 ) \x7b".toList, ?_, rfl⟩, nofun⟩
  simp [LineContent.text]

theorem visible_brace : LineContent.brace.Visible :=
  ⟨⟨'\x7d', [], rfl, rfl⟩, nofun⟩

theorem layout_plain (hsequence : s.kind ≠ .sequence) (hloop : s.kind ≠ .whileLoop) :
    s.layout depth = [⟨depth, .statement (s.source {} depth)⟩] := by
  cases s with
  | sequence => exact absurd rfl hsequence
  | loop => exact absurd rfl hloop
  | _ => rfl

theorem layout_visible_plain (hs : IsStmt s) (hnames : ∀ name ∈ s.names, isName name = true)
    (hsequence : s.kind ≠ .sequence) (hloop : s.kind ≠ .whileLoop) :
    ∀ line ∈ s.layout depth, line.content.Visible := by
  rw [layout_plain hsequence hloop]
  exact List.forall_mem_singleton.mpr
    (visible_statement (plainStatement_source hs hnames hsequence hloop depth).2)

theorem allLayout_eq (depth : Nat) (statements : List (Node τ)) :
    Node.allLayout depth statements = statements.flatMap (Node.layout depth) := by
  induction statements with
  | nil => rfl
  | cons s statements ih => rw [Node.allLayout, ih, List.flatMap_cons]

theorem layout_visible (hs : IsStmt s) (hnames : ∀ name ∈ s.names, isName name = true) :
    ∀ line ∈ s.layout depth, line.content.Visible := by
  induction hs using IsStmt.plain_induction generalizing depth with
  | @sequence tag statements _ ih =>
    intro line hline
    rw [Node.layout, allLayout_eq] at hline
    obtain ⟨s, hs, hline⟩ := List.mem_flatMap.mp hline
    have hc : s ∈ (Node.sequence tag statements).children := hs
    exact ih s hs (fun name hname => hnames name (Node.mem_names_of_child hc hname)) line hline
  | @loop tag condition body hcondition _ ih =>
    have hc : body ∈ (Node.loop tag condition body).children := by simp [Node.children]
    rw [Node.layout]
    refine List.forall_mem_append.mpr ⟨List.forall_mem_cons.mpr ⟨visible_head _, ?_⟩,
      List.forall_mem_singleton.mpr visible_brace⟩
    exact ih fun name hname => hnames name (Node.mem_names_of_child hc hname)
  | plain hs hsequence hloop => exact layout_visible_plain hs hnames hsequence hloop

end Contents

section Lines

variable {depth : Nat} {s : Node τ}

theorem toList_indentation (depth : Nat) :
    (SourceStyle.indentation {} depth).toList = List.replicate (2 * depth) ' ' := by
  have hindent : "  ".toList = List.replicate 2 ' ' := rfl
  rw [SourceStyle.indentation, String.toList_join, List.flatMap_replicate, hindent,
    List.flatten_replicate_replicate, Nat.mul_comm]

theorem lineText_of_not_loop (h : s.kind ≠ .whileLoop) : s.lineText depth =
    (ProgramLine.mk depth (.statement (s.source {} depth))).chars ++ ['\n'] := by
  simp [Node.lineText, SourceStyle.line, h, ProgramLine.chars, LineContent.text,
    toList_indentation]

theorem lineText_loop (tag : τ) (condition body : Node τ) :
    (Node.loop tag condition body).lineText depth =
      (ProgramLine.mk depth (.head (condition.source {} depth))).chars ++ '\n' ::
        (body.blockText (depth + 1) ++ ((ProgramLine.mk depth .brace).chars ++ ['\n'])) := by
  simp [Node.lineText, SourceStyle.line, Node.kind, Node.source, SourceStyle.loop, String.join,
    Node.blockText, ProgramLine.chars, LineContent.text, toList_indentation]

theorem blockText_of_not_sequence (h : s.kind ≠ .sequence) :
    s.blockText depth = s.lineText depth := by
  rw [Node.blockText, SourceStyle.block, if_neg h, Node.lineText]

theorem toList_lines (depth : Nat) (statements : List (Node τ)) :
    (Node.lines {} depth statements).toList = statements.flatMap (Node.lineText depth) := by
  induction statements with
  | nil => rfl
  | cons s statements ih =>
    rw [Node.lines, String.toList_append, ih, List.flatMap_cons, Node.lineText]

theorem blockText_sequence (tag : τ) (statements : List (Node τ)) :
    (Node.sequence tag statements).blockText depth = statements.flatMap (Node.lineText depth) := by
  rw [← toList_lines]
  rfl

theorem endsLine_lineText : EndsLine (s.lineText depth) := by
  unfold Node.lineText SourceStyle.line
  rw [String.toList_append]
  exact endsLine_append_break _

theorem endsLine_lines (statements : List (Node τ)) :
    EndsLine (statements.flatMap (Node.lineText depth)) := by
  induction statements with
  | nil => exact .inl rfl
  | cons s statements ih =>
    rw [List.flatMap_cons]
    exact endsLine_lineText.append ih

theorem endsLine_blockText : EndsLine (s.blockText depth) := by
  by_cases h : s.kind = .sequence
  · cases s with
    | sequence tag statements =>
      rw [blockText_sequence]
      exact endsLine_lines statements
    | _ => exact nomatch h
  · rw [blockText_of_not_sequence h]
    exact endsLine_lineText

theorem textLines_lines (statements : List (Node τ)) :
    textLines (statements.flatMap (Node.lineText depth)) =
      statements.flatMap fun s => textLines (s.lineText depth) := by
  induction statements with
  | nil => rfl
  | cons s statements ih =>
    rw [List.flatMap_cons, textLines_append endsLine_lineText, ih, List.flatMap_cons]

theorem textLines_loop (tag : τ) (condition body : Node τ) :
    textLines ((Node.loop tag condition body).lineText depth) =
      textLines ((ProgramLine.mk depth (.head (condition.source {} depth))).chars ++ ['\n']) ++
        (textLines (body.blockText (depth + 1)) ++
          textLines ((ProgramLine.mk depth .brace).chars ++ ['\n'])) := by
  rw [lineText_loop, List.append_cons, textLines_append (endsLine_append_break _),
    textLines_append endsLine_blockText]

theorem textLines_chars {content : LineContent} (h : OneLine content.text) :
    textLines ((ProgramLine.mk depth content).chars ++ ['\n']) = [⟨depth, content⟩].map
      ProgramLine.chars := by
  have hblank : '\n' ∉ List.replicate (2 * depth) ' ' := by
    intro h
    exact absurd (List.eq_of_mem_replicate h) (by decide)
  have hchars : '\n' ∉ (ProgramLine.mk depth content).chars := by
    rw [ProgramLine.chars, List.mem_append, not_or]
    exact ⟨hblank, h⟩
  exact textLines_line hchars []

theorem textLines_plain (hs : IsStmt s) (hnames : ∀ name ∈ s.names, isName name = true)
    (hsequence : s.kind ≠ .sequence) (hloop : s.kind ≠ .whileLoop) :
    textLines (s.blockText depth) = (s.layout depth).map ProgramLine.chars := by
  have hone : OneLine (LineContent.statement (s.source {} depth)).text := by
    rw [LineContent.text, oneLine_append]
    exact ⟨(plainStatement_source hs hnames hsequence hloop depth).1, by decide⟩
  rw [blockText_of_not_sequence hsequence, lineText_of_not_loop hloop, textLines_chars hone,
    layout_plain hsequence hloop]

/-- Without a sequence directly in a sequence the lines are those of the layout. -/
theorem textLines_blockText (depth : Nat) (hs : IsStmt s)
    (hnames : ∀ name ∈ s.names, isName name = true) (hunnested : s.Unnested) :
    textLines (s.blockText depth) = (s.layout depth).map ProgramLine.chars := by
  induction hs using IsStmt.plain_induction generalizing depth with
  | @sequence tag statements _ ih =>
    obtain ⟨hkinds, hbelow⟩ := unnested_iff.mp hunnested
    have hlines : ∀ s ∈ statements, textLines (s.lineText depth) =
        (s.layout depth).map ProgramLine.chars := by
      intro s hs
      have hc : s ∈ (Node.sequence tag statements).children := hs
      rw [← blockText_of_not_sequence (hkinds rfl s hs)]
      exact ih s hs depth (fun name hname => hnames name (Node.mem_names_of_child hc hname))
        (hbelow s hs)
    rw [blockText_sequence, textLines_lines, List.flatMap_congr hlines, Node.layout,
      allLayout_eq, List.map_flatMap]
  | @loop tag condition body hcondition _ ih =>
    have hcond : condition ∈ (Node.loop tag condition body).children := by simp [Node.children]
    have hbody : body ∈ (Node.loop tag condition body).children := by simp [Node.children]
    have hhead : OneLine (LineContent.head (condition.source {} depth)).text := by
      rw [LineContent.text, oneLine_append, oneLine_append]
      exact ⟨⟨by decide, oneLine_expression hcondition fun name hname =>
        hnames name (Node.mem_names_of_child hcond hname)⟩, by decide⟩
    have hbrace : OneLine LineContent.brace.text := by decide
    have hinside : textLines (body.blockText (depth + 1)) =
        (body.layout (depth + 1)).map ProgramLine.chars :=
      ih (depth + 1) (fun name hname => hnames name (Node.mem_names_of_child hbody hname))
        ((unnested_loop hcondition).mp hunnested)
    rw [blockText_of_not_sequence (by simp [Node.kind]), textLines_loop, textLines_chars hhead,
      hinside, textLines_chars hbrace, Node.layout]
    simp
  | plain hs hsequence hloop => exact textLines_plain hs hnames hsequence hloop

/-- The line of a sequence ends with a terminator that nothing but blanks can precede. -/
theorem lone_terminator_of_sequence (depth : Nat) (h : s.kind = .sequence) :
    ∃ k, List.replicate k ' ' ++ [';'] ∈ textLines (s.lineText depth) := by
  have hline : s.lineText depth =
      List.replicate (2 * depth) ' ' ++ s.blockText depth ++ [';', '\n'] := by
    have hblock : s.blockText depth = (s.source {} depth).toList := by
      rw [Node.blockText, SourceStyle.block, if_pos h]
    rw [hblock, ← toList_indentation]
    simp [Node.lineText, SourceStyle.line, h]
  rcases endsLine_blockText (s := s) with hempty | hlast
  · have hbreak : '\n' ∉ List.replicate (2 * depth) ' ' ++ [';'] := by
      intro hmem
      rcases List.mem_append.mp hmem with hmem | hmem
      · exact absurd (List.eq_of_mem_replicate hmem) (by decide)
      · exact absurd hmem (by decide)
    have hlone : s.lineText depth = List.replicate (2 * depth) ' ' ++ [';'] ++ '\n' :: [] := by
      rw [hline, hempty, List.append_nil, List.append_assoc]
      rfl
    refine ⟨2 * depth, ?_⟩
    rw [hlone, textLines_line hbreak]
    exact List.mem_cons_self
  · have hends : EndsLine (List.replicate (2 * depth) ' ' ++ s.blockText depth) :=
      .inr (by rw [List.getLast?_append, hlast, Option.some_or])
    refine ⟨0, ?_⟩
    rw [hline, textLines_append hends]
    exact List.mem_append_right _ List.mem_cons_self

/-- A terminator behind blanks is left of a sequence directly in a sequence. -/
theorem exists_lone_terminator (depth : Nat) (hs : IsStmt s) (hnested : ¬ s.Unnested) :
    ∃ k, List.replicate k ' ' ++ [';'] ∈ textLines (s.blockText depth) := by
  induction hs using IsStmt.plain_induction generalizing depth with
  | @sequence tag statements _ ih =>
    rw [blockText_sequence, textLines_lines]
    by_cases hkinds : ∀ s ∈ statements, s.kind ≠ .sequence
    · have hbelow : ∃ s ∈ statements, ¬ s.Unnested := by
        by_contra hall
        push Not at hall
        exact hnested (unnested_iff.mpr ⟨fun _ => hkinds, hall⟩)
      obtain ⟨s, hs, hnested⟩ := hbelow
      obtain ⟨k, hk⟩ := ih s hs depth hnested
      rw [blockText_of_not_sequence (hkinds s hs)] at hk
      exact ⟨k, List.mem_flatMap.mpr ⟨s, hs, hk⟩⟩
    · push Not at hkinds
      obtain ⟨s, hs, hkind⟩ := hkinds
      obtain ⟨k, hk⟩ := lone_terminator_of_sequence depth hkind
      exact ⟨k, List.mem_flatMap.mpr ⟨s, hs, hk⟩⟩
  | @loop tag condition body hcondition _ ih =>
    obtain ⟨k, hk⟩ := ih (depth + 1) fun h => hnested ((unnested_loop hcondition).mpr h)
    refine ⟨k, ?_⟩
    rw [blockText_of_not_sequence (by simp [Node.kind]), textLines_loop]
    exact List.mem_append_right _ (List.mem_append_left _ hk)
  | plain hs hsequence hloop => exact absurd (unnested_of_plain hs hsequence hloop) hnested

theorem chars_ne_lone_terminator {line : ProgramLine} (h : line.content.Visible) (k : Nat) :
    line.chars ≠ List.replicate k ' ' ++ [';'] := by
  obtain ⟨⟨c, rest, hcons, hc⟩, hstatement⟩ := h
  intro heq
  have hblank : decide (c = ' ') = false := by
    rw [decide_eq_false_iff_not]
    rintro rfl
    exact absurd hc (by decide)
  have hdrop (k : Nat) (rest : List Char) :
      (List.replicate k ' ' ++ rest).dropWhile (· = ' ') = rest.dropWhile (· = ' ') :=
    List.dropWhile_append_of_pos fun c hc => decide_eq_true (List.eq_of_mem_replicate hc)
  have hcontent : line.content.text.toList = [';'] := by
    rw [ProgramLine.chars] at heq
    have hsame := congrArg (List.dropWhile (· = ' ')) heq
    rw [hdrop, hdrop, hcons, List.dropWhile_cons, hblank] at hsame
    rw [hcons]
    exact hsame
  match hkind : line.content with
  | .statement text =>
    rw [hkind, LineContent.text, String.toList_append] at hcontent
    refine hstatement text hkind (String.toList_inj.mp ?_)
    have hlength := congrArg List.length hcontent
    simpa using hlength
  | .head condition =>
    rw [hkind, LineContent.text] at hcontent
    have hlength := congrArg List.length hcontent
    simp at hlength
  | .brace =>
    rw [hkind] at hcontent
    exact absurd hcontent (by decide)

end Lines

/-- Every line of a program is that of a statement, of the head of a loop or of its brace, indented
once for each loop around it, exactly if no sequence stands directly in a sequence; all lines then
are these, in order. -/
theorem lines_follow_layout_iff {tag : τ} {statements : List (Node τ)}
    (hs : IsStmt (.sequence tag statements))
    (hnames : ∀ name ∈ (Node.sequence tag statements).names, isName name = true) :
    let program := Node.sequence tag statements
    let lines := textLines (program.source {} 0).toList
    (∀ line ∈ program.layout 0, line.content.Visible) ∧
      ((∀ chars ∈ lines, ∃ line ∈ program.layout 0, chars = line.chars) ↔ program.Unnested) ∧
      (program.Unnested → lines = (program.layout 0).map ProgramLine.chars) := by
  intro program lines
  have hblock : program.blockText 0 = (program.source {} 0).toList := rfl
  have hvisible : ∀ line ∈ program.layout 0, line.content.Visible := layout_visible hs hnames
  have hlines : program.Unnested → lines = (program.layout 0).map ProgramLine.chars := by
    intro hunnested
    have hblocks := textLines_blockText 0 hs hnames hunnested
    rwa [hblock] at hblocks
  refine ⟨hvisible, ⟨?_, ?_⟩, hlines⟩
  · intro hall
    by_contra hnested
    obtain ⟨k, hk⟩ := exists_lone_terminator 0 hs hnested
    rw [hblock] at hk
    obtain ⟨line, hline, heq⟩ := hall _ hk
    exact chars_ne_lone_terminator (hvisible line hline) k heq.symm
  · intro hunnested chars hchars
    rw [hlines hunnested] at hchars
    obtain ⟨line, hline, rfl⟩ := List.mem_map.mp hchars
    exact ⟨line, hline, rfl⟩

/-- A loop in a loop, with a line break in what it prints. -/
def loopInLoop : Program :=
  .sequence () [.loop () (.var () "i")
    (.sequence () [.loop () (.var () "j") (.print () "a\nb" none)])]

theorem loopInLoop_lines :
    IsStmt loopInLoop ∧ (∀ name ∈ loopInLoop.names, isName name = true) ∧
      textLines (loopInLoop.source {} 0).toList =
        ["while ( i >= 0 ) \x7b".toList, "  while ( j >= 0 ) \x7b".toList,
          "    System.out.println(\"a\\nb\");".toList, "  \x7d".toList, "\x7d".toList] := by
  have hs : IsStmt loopInLoop :=
    .sequence () (List.forall_mem_singleton.mpr (.loop () (.var () "i")
      (.sequence () (List.forall_mem_singleton.mpr (.loop () (.var () "j")
        (.print () "a\nb" nofun))))))
  have hnames : ∀ name ∈ loopInLoop.names, isName name = true := by decide
  have hunnested : loopInLoop.Unnested := by decide
  have hlines := (lines_follow_layout_iff hs hnames).2.2 hunnested
  exact ⟨hs, hnames, hlines.trans (by decide)⟩

def nestedPrint : Program :=
  .sequence () [.sequence () [.print () "x" none]]

/-- The terminator of the inner sequence has a line of its own. -/
theorem nestedPrint_lone_terminator :
    IsStmt nestedPrint ∧ (∀ name ∈ nestedPrint.names, isName name = true) ∧
      nestedPrint.source {} 0 = "System.out.println(\"x\");\n;\n" ∧
      [';'] ∈ textLines (nestedPrint.source {} 0).toList ∧
      ∀ line ∈ nestedPrint.layout 0, [';'] ≠ line.chars := by
  have hs : IsStmt nestedPrint :=
    .sequence () (List.forall_mem_singleton.mpr
      (.sequence () (List.forall_mem_singleton.mpr (.print () "x" nofun))))
  exact ⟨hs, by decide, by decide, by decide, by decide⟩

end ProgramTrees
