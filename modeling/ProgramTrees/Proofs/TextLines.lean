import ProgramTrees.Operator

namespace ProgramTrees

/-- The text has no line break. -/
def OneLine (text : String) : Prop :=
  '\n' ∉ text.toList

instance (text : String) : Decidable (OneLine text) :=
  inferInstanceAs (Decidable ('\n' ∉ text.toList))

theorem oneLine_append {a b : String} : OneLine (a ++ b) ↔ OneLine a ∧ OneLine b := by
  simp [OneLine]

theorem oneLine_intercalate {separator : String} {parts : List String}
    (hseparator : OneLine separator) (hparts : ∀ part ∈ parts, OneLine part) :
    OneLine (separator.intercalate parts) := by
  induction parts with
  | nil => simp [OneLine]
  | cons part parts ih =>
    cases parts with
    | nil =>
      rw [String.intercalate_singleton]
      exact hparts part (by simp)
    | cons next parts =>
      rw [String.intercalate_cons_cons, oneLine_append, oneLine_append]
      refine ⟨⟨hparts part (by simp), hseparator⟩, ih ?_⟩
      exact fun other hother => hparts other (by simp [hother])

theorem oneLine_ty (ty : Ty) : OneLine ty.name := by
  cases ty <;> decide

/-- The lines of a text; each ends at a line break, and the last one may go without. -/
def textLines : List Char → List (List Char)
  | [] => []
  | c :: rest =>
    if c = '\n' then [] :: textLines rest
    else
      match textLines rest with
      | [] => [[c]]
      | line :: lines => (c :: line) :: lines

/-- A text of whole lines. -/
def EndsLine (text : List Char) : Prop :=
  text = [] ∨ text.getLast? = some '\n'

section Cutting

variable {text line rest : List Char}

theorem textLines_line (h : '\n' ∉ line) (rest : List Char) :
    textLines (line ++ '\n' :: rest) = line :: textLines rest := by
  induction line with
  | nil => rfl
  | cons c line ih =>
    obtain ⟨hc, hline⟩ := List.ne_and_not_mem_of_not_mem_cons h
    rw [List.cons_append, textLines, if_neg (Ne.symm hc), ih hline]

theorem textLines_ne_nil (h : text ≠ []) : textLines text ≠ [] := by
  cases text with
  | nil => exact absurd rfl h
  | cons c rest =>
    rw [textLines]
    split
    next => exact List.cons_ne_nil _ _
    next =>
      split
      next => exact List.cons_ne_nil _ _
      next => exact List.cons_ne_nil _ _

theorem endsLine_append_break (line : List Char) : EndsLine (line ++ ['\n']) :=
  .inr (by simp)

theorem EndsLine.append (htext : EndsLine text) (hrest : EndsLine rest) :
    EndsLine (text ++ rest) := by
  rcases hrest with rfl | hrest
  · rwa [List.append_nil]
  · exact .inr (by rw [List.getLast?_append, hrest, Option.some_or])

theorem textLines_append (h : EndsLine text) (rest : List Char) :
    textLines (text ++ rest) = textLines text ++ textLines rest := by
  induction text with
  | nil => rfl
  | cons c text ih =>
    by_cases hnil : text = []
    · subst hnil
      obtain rfl : c = '\n' := by simpa [EndsLine] using h
      rfl
    · have hends : EndsLine text := by
        rcases h with h | h
        · exact absurd h (List.cons_ne_nil _ _)
        · rw [List.getLast?_cons_of_ne_nil hnil] at h
          exact .inr h
      obtain ⟨line, lines, hlines⟩ := List.exists_cons_of_ne_nil (textLines_ne_nil hnil)
      rw [List.cons_append, textLines, textLines, ih hends, hlines]
      by_cases hc : c = '\n'
      · rw [if_pos hc, if_pos hc]
        rfl
      · rw [if_neg hc, if_neg hc]
        rfl

end Cutting

end ProgramTrees
