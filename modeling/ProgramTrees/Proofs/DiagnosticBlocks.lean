import Mathlib.Data.List.Forall2
import Mathlib.Data.List.Nodup
import ProgramTrees.Proofs.CheckingMoments

namespace ProgramTrees

/-- A text cut at its blank lines, from the left. -/
def paragraphs : List Char → List (List Char)
  | [] => [[]]
  | '\n' :: '\n' :: cs => [] :: paragraphs cs
  | c :: cs => (paragraphs cs).modifyHead (c :: ·)

section

variable {line text : List Char} {block : List (List Char)} {blocks : List (List (List Char))}

theorem paragraphs_cons {c : Char} (h : c ≠ '\n' ∨ text.head? ≠ some '\n') :
    paragraphs (c :: text) = (paragraphs text).modifyHead (c :: ·) := by
  refine paragraphs.eq_3 c text ?_
  rintro rest rfl rfl
  simp at h

theorem paragraphs_append (h : '\n' ∉ line) (text : List Char) :
    paragraphs (line ++ text) = (paragraphs text).modifyHead (line ++ ·) := by
  induction line with
  | nil => exact (congrFun List.modifyHead_id _).symm
  | cons c line ih =>
    obtain ⟨hc, hline⟩ := List.ne_and_not_mem_of_not_mem_cons h
    have hcons : paragraphs (c :: (line ++ text)) =
        ((paragraphs text).modifyHead (line ++ ·)).modifyHead (c :: ·) := by
      rw [paragraphs_cons (.inl (Ne.symm hc)), ih hline]
    exact hcons.trans List.modifyHead_modifyHead

theorem prefix_intercalate_cons (separator line : List Char) (block : List (List Char)) :
    line <+: separator.intercalate (line :: block) := by
  cases block with
  | nil => simp
  | cons next block =>
    rw [List.intercalate_cons_cons, List.append_assoc]
    exact List.prefix_append _ _

theorem paragraphs_lines (hblock : ∀ other ∈ line :: block, '\n' ∉ other ∧ other ≠ [])
    (text : List Char) :
    paragraphs (['\n'].intercalate (line :: block) ++ text) =
      (paragraphs text).modifyHead (['\n'].intercalate (line :: block) ++ ·) := by
  induction block generalizing line with
  | nil =>
    rw [List.intercalate_singleton]
    exact paragraphs_append (hblock line (by simp)).1 text
  | cons next block ih =>
    obtain ⟨hnext, hne⟩ := hblock next (by simp)
    obtain ⟨c, cs, rfl⟩ := List.exists_cons_of_ne_nil hne
    -- The next line begins with no line break, so the break before it ends no block.
    have hhead : (['\n'].intercalate ((c :: cs) :: block) ++ text).head? ≠ some '\n' := by
      obtain ⟨others, heq⟩ := prefix_intercalate_cons ['\n'] (c :: cs) block
      rw [← heq]
      simpa using fun heq => hnext (by simp [heq])
    have hrest := ih fun other hother => hblock other (List.mem_cons_of_mem _ hother)
    rw [List.intercalate_cons_cons, List.append_assoc, List.append_assoc,
      paragraphs_append (hblock line (by simp)).1, List.singleton_append,
      paragraphs_cons (.inr hhead), hrest, List.modifyHead_modifyHead, List.modifyHead_modifyHead]
    congr 1
    funext rest
    simp

/-- Blocks of lines with a blank line between them are told apart again. -/
theorem paragraphs_blocks (hne : blocks ≠ [])
    (hblocks : ∀ block ∈ blocks, block ≠ [] ∧ ∀ line ∈ block, '\n' ∉ line ∧ line ≠ []) :
    paragraphs (['\n', '\n'].intercalate (blocks.map (['\n'].intercalate ·))) =
      blocks.map (['\n'].intercalate ·) := by
  induction blocks with
  | nil => exact absurd rfl hne
  | cons block blocks ih =>
    obtain ⟨hblock, hlines⟩ := hblocks block (by simp)
    obtain ⟨line, block, rfl⟩ := List.exists_cons_of_ne_nil hblock
    cases blocks with
    | nil =>
      have hlast := paragraphs_lines hlines []
      simpa [paragraphs] using hlast
    | cons next blocks =>
      have hrest := ih (by simp) fun block hblock => hblocks block (by simp [hblock])
      have hcut (text : List Char) : paragraphs (['\n', '\n'] ++ text) = [] :: paragraphs text :=
        rfl
      rw [List.map_cons, List.map_cons, List.intercalate_cons_cons, List.append_assoc,
        paragraphs_lines hlines, ← List.map_cons, hcut, hrest, List.modifyHead_cons,
        List.append_nil]

end

theorem Diagnostic.lines_plain (d : Diagnostic) :
    d.lines false =
      (d.severity.name ++ (if d.hasKnownCode then "[" ++ d.code ++ "]" else "") ++ ": " ++
        d.message) ::
      (d.notes.map (fun note => "   " ++ "=" ++ " " ++ "note:" ++ " " ++ note) ++
        d.helps.map (fun help => "   " ++ "=" ++ " " ++ "help:" ++ " " ++ help)) := by
  simp [Diagnostic.lines, ansi, String.append_assoc]

theorem Diagnostic.Unbroken.lines {d : Diagnostic} (h : d.Unbroken) :
    ∀ line ∈ d.lines false, OneLine line ∧ line ≠ "" := by
  rw [Diagnostic.lines_plain]
  have hseverity : OneLine d.severity.name := by cases d.severity <;> decide
  intro line hline
  rcases List.mem_cons.mp hline with rfl | hline
  · have hcode : OneLine (if d.hasKnownCode then "[" ++ d.code ++ "]" else "") := by
      split
      next => simpa [OneLine] using h.code
      next => decide
    refine ⟨?_, by simp⟩
    simp only [oneLine_append]
    exact ⟨⟨⟨hseverity, hcode⟩, by decide⟩, h.message⟩
  · rcases List.mem_append.mp hline with hline | hline
    · obtain ⟨note, hnote, rfl⟩ := List.mem_map.mp hline
      exact ⟨by simpa [OneLine] using h.notes note hnote, by simp⟩
    · obtain ⟨help, hhelp, rfl⟩ := List.mem_map.mp hline
      exact ⟨by simpa [OneLine] using h.helps help hhelp, by simp⟩

theorem Diagnostic.toList_render (d : Diagnostic) :
    (d.render false).toList = ['\n'].intercalate ((d.lines false).map String.toList) := by
  rw [Diagnostic.render, String.toList_intercalate]
  rfl

theorem Problem.code_isKnown (problem : Problem) :
    (ProblemCode.all.any fun code => code.name == problem.code) = true := by
  cases problem <;> simp [ProblemCode.all, ProblemCode.name, code]

theorem Diagnostic.Reports.code_prefix_render {d : Diagnostic} {problem : Problem}
    {known : List String} (h : d.Reports problem known) :
    ("error[" ++ problem.code ++ "]").toList <+: (d.render false).toList := by
  have hknown : d.hasKnownCode = true := by
    rw [Diagnostic.hasKnownCode, h.code]
    exact problem.code_isKnown
  rw [Diagnostic.toList_render, Diagnostic.lines_plain, if_pos hknown, h.severity, h.code,
    List.map_cons]
  refine List.IsPrefix.trans ?_ (prefix_intercalate_cons _ _ _)
  simp [Severity.name]

/-- Where no part of a diagnostic goes over a line break, the text of all of them is cut into them
again. -/
theorem paragraphs_renderAll {ds : List Diagnostic} (hne : ds ≠ []) (h : ∀ d ∈ ds, d.Unbroken) :
    paragraphs (renderAll false ds).toList = ds.map fun d => (d.render false).toList := by
  have hblocks : ∀ block ∈ ds.map (fun d => (d.lines false).map String.toList),
      block ≠ [] ∧ ∀ line ∈ block, '\n' ∉ line ∧ line ≠ [] := by
    intro block hblock
    obtain ⟨d, hd, rfl⟩ := List.mem_map.mp hblock
    refine ⟨by simp [Diagnostic.lines], ?_⟩
    intro line hline
    obtain ⟨text, htext, rfl⟩ := List.mem_map.mp hline
    obtain ⟨hone, hsome⟩ := (h d hd).lines text htext
    exact ⟨hone, by simpa using hsome⟩
  have hsome : ds.map (fun d => (d.lines false).map String.toList) ≠ [] := by simpa using hne
  have htext : (renderAll false ds).toList =
      ['\n', '\n'].intercalate
        ((ds.map fun d => (d.lines false).map String.toList).map (['\n'].intercalate ·)) := by
    rw [renderAll, String.toList_intercalate, List.map_map, List.map_map]
    simp only [Function.comp_def, Diagnostic.toList_render]
    rfl
  rw [htext, paragraphs_blocks hsome hblocks]
  simp [Function.comp_def, Diagnostic.toList_render]

namespace Findings

variable {nodes : List (Node Nat)} {s s' : Findings}

/-- The diagnostics report the problems one by one, and all names come from the nodes. -/
structure Aligned (nodes : List (Node Nat)) (s : Findings) : Prop where
  declared : s.declared ⊆ nodes.filterMap Node.name?
  reported : List.Forall₂ (fun problem d => d.Reports problem (nodes.filterMap Node.name?))
    s.problems s.diagnostics

theorem Aligned.empty : ({} : Findings).Aligned nodes :=
  ⟨List.nil_subset _, .nil⟩

theorem Step.aligned (h : Step nodes s s') (hs : s.Aligned nodes) : s'.Aligned nodes := by
  cases h with
  | none => exact hs
  | report mentioned told _ =>
    have htold := told.mono (List.append_subset.mpr ⟨mentioned, hs.declared⟩)
    exact ⟨hs.declared, List.rel_append hs.reported (.cons htold .nil)⟩
  | record => exact ⟨hs.declared, hs.reported⟩
  | @declare name ty named _ =>
    refine ⟨?_, ?_⟩
    · intro other hother
      rcases mem_declare.mp hother with hother | rfl
      · exact hs.declared hother
      · exact named
    · rw [problems_declare, diagnostics_declare]
      exact hs.reported

theorem Aligned.reports (hs : s.Aligned nodes) :
    ∀ d ∈ s.diagnostics, ∃ problem, d.Reports problem (nodes.filterMap Node.name?) := by
  have hpairs := hs.reported.flip.imp fun d problem h => And.intro (Exists.intro problem h) h
  exact ((List.forall₂_and_left _ _).mp hpairs).1

theorem Aligned.errorCount_eq (hs : s.Aligned nodes) :
    errorCount s.diagnostics = s.problems.length := by
  have herror : ∀ d ∈ s.diagnostics, (d.severity == .error) = true := by
    intro d hd
    obtain ⟨problem, h⟩ := hs.reports d hd
    rw [h.severity]
    rfl
  rw [errorCount, List.countP_eq_length.mpr herror, hs.reported.length_eq]

theorem Aligned.ok_iff (hs : s.Aligned nodes) : s.ok = true ↔ errorCount s.diagnostics = 0 := by
  rw [hs.errorCount_eq, ok, List.isEmpty_iff, List.length_eq_zero_iff]

/-- A problem comes with its diagnostic, and no step brings more than one. -/
theorem Step.reports (h : Step nodes s s') :
    (s'.problems = s.problems ∧ s'.diagnostics = s.diagnostics) ∨
      ∃ problem d, s'.problems = s.problems ++ [problem] ∧
        s'.diagnostics = s.diagnostics ++ [d] := by
  cases h with
  | none | record => exact .inl ⟨rfl, rfl⟩
  | declare => exact .inl ⟨problems_declare _ _ _, diagnostics_declare _ _ _⟩
  | @report problem d => exact .inr ⟨problem, d, rfl, rfl⟩

end Findings

variable {ns : List (Node Nat)}

/-- Each step of visits of any nodes adds one problem with one diagnostic or neither. After each,
there are as many diagnostics as problems, each an error with the code of its problem's kind. So
there are no problems exactly if no errors are counted, and if there are some and no name in the
nodes goes over a line break, the text of all diagnostics has one block between blank lines for
each problem, which begins with its code. -/
theorem diagnostics_match_problems
    (coherent : ∀ a ∈ Node.allSubterms ns, ∀ b ∈ Node.allSubterms ns, a.tag = b.tag → a = b) :
    (({} : Findings) :: Node.allMoments ns {}).IsChain (fun s s' =>
      (s'.problems = s.problems ∧ s'.diagnostics = s.diagnostics) ∨
        ∃ problem d, s'.problems = s.problems ++ [problem] ∧
          s'.diagnostics = s.diagnostics ++ [d]) ∧
    ∀ s ∈ ({} : Findings) :: Node.allMoments ns {},
      s.diagnostics.length = s.messages.length ∧
      List.Forall₂ (fun problem d => d.severity = Severity.error ∧ d.code = Problem.code problem)
        s.problems s.diagnostics ∧
      (s.ok = true ↔ errorCount s.diagnostics = 0) ∧
      (s.ok = false →
        (∀ name ∈ (Node.allSubterms ns).filterMap Node.name?, '\n' ∉ name.toList) →
        (paragraphs (renderAll false s.diagnostics).toList).length = s.messages.length ∧
        List.Forall₂
          (fun problem block => ("error[" ++ Problem.code problem ++ "]").toList <+: block)
          s.problems (paragraphs (renderAll false s.diagnostics).toList)) := by
  obtain ⟨node, hnode⟩ := exists_numbering coherent
  have hpasses := visits_pass hnode
  have haligned := hpasses.invariant (fun _ _ hs h => h.aligned hs) Findings.Aligned.empty
  refine ⟨hpasses.isChain.imp fun _ _ h => h.reports, ?_⟩
  intro s hs
  have hreported := (haligned s hs).reported
  have hlength : s.diagnostics.length = s.messages.length := by
    rw [Findings.messages, List.length_map, hreported.length_eq]
  refine ⟨hlength, hreported.imp fun _ _ h => ⟨h.severity, h.code⟩, (haligned s hs).ok_iff, ?_⟩
  intro hproblems hlines
  have hsome : s.diagnostics ≠ [] := by
    intro hnone
    rw [hnone] at hreported
    simp [Findings.ok, List.forall₂_nil_right_iff.mp hreported] at hproblems
  have hunbroken : ∀ d ∈ s.diagnostics, d.Unbroken := by
    intro d hd
    obtain ⟨problem, h⟩ := (haligned s hs).reports d hd
    exact h.unbroken hlines
  have hcut := paragraphs_renderAll hsome hunbroken
  rw [hcut, List.length_map]
  refine ⟨hlength, List.forall₂_map_right_iff.mpr ?_⟩
  exact hreported.imp fun _ _ h => h.code_prefix_render

/-- A variable that starts with a value of another type, a misspelled variable, and a loop over a
remainder of mixed types. -/
def troubledLoop : Node Nat :=
  .sequence 0 [
    .declare 1 .int "count" (some (.float 2 (Format.double.ofInt 1))),
    .assign 3 "cuont" (.var 4 "count"),
    .loop 5 (.apply 6 .mod [.var 7 "count", .float 8 (Format.double.ofInt 2)])
      (.print 9 "" none)]

theorem troubledLoop_diagnosed :
    (∀ a ∈ Node.allSubterms [troubledLoop], ∀ b ∈ Node.allSubterms [troubledLoop],
      a.tag = b.tag → a = b) ∧
    troubledLoop.findings.ok = false ∧
    (∀ name ∈ (Node.allSubterms [troubledLoop]).filterMap Node.name?, '\n' ∉ name.toList) ∧
    troubledLoop.findings.problems.map Problem.code = ["E0101", "E0102", "E0105", "E0115"] ∧
    (paragraphs (renderAll false troubledLoop.findings.diagnostics).toList).length = 4 ∧
    List.Forall₂ (fun problem block => ("error[" ++ Problem.code problem ++ "]").toList <+: block)
      troubledLoop.findings.problems
      (paragraphs (renderAll false troubledLoop.findings.diagnostics).toList) := by
  have coherent : ∀ a ∈ Node.allSubterms [troubledLoop], ∀ b ∈ Node.allSubterms [troubledLoop],
      a.tag = b.tag → a = b :=
    fun a ha b hb h => List.inj_on_of_nodup_map (by decide) ha hb h
  have hproblems : troubledLoop.findings.ok = false := by decide
  have hlines : ∀ name ∈ (Node.allSubterms [troubledLoop]).filterMap Node.name?,
      '\n' ∉ name.toList := by decide
  have hcodes : troubledLoop.findings.problems.map Problem.code =
      ["E0101", "E0102", "E0105", "E0115"] := by decide
  obtain ⟨node, hnode⟩ := exists_numbering coherent
  have hmem : troubledLoop.findings ∈ ({} : Findings) :: Node.allMoments [troubledLoop] {} :=
    (visits_pass hnode).final_mem
  obtain ⟨-, hmoments⟩ := diagnostics_match_problems coherent
  obtain ⟨-, -, -, hblocks⟩ := hmoments troubledLoop.findings hmem
  obtain ⟨hlength, hbegin⟩ := hblocks hproblems hlines
  exact ⟨coherent, hproblems, hlines, hcodes, hlength, hbegin⟩

end ProgramTrees
