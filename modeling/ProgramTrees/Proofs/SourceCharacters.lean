import ProgramTrees.Proofs.NumberCharacters
import ProgramTrees.Proofs.PrintedExpressions

namespace ProgramTrees

def isSourceChar (c : Char) : Bool :=
  isNameChar c || c ∈ marks || c = '.' || c = ' '

theorem isSourceChar_of_nameChar {c : Char} (h : isNameChar c = true) : isSourceChar c = true := by
  simp [isSourceChar, h]

theorem isSourceChar_of_mem_marks {c : Char} (h : c ∈ marks) : isSourceChar c = true := by
  simp [isSourceChar, h]

theorem IsNumberChar.isSourceChar {c : Char} (h : IsNumberChar c) : isSourceChar c = true := by
  rcases h with hdigit | hmem
  · exact isSourceChar_of_nameChar (by simp [isNameChar, Char.isAlphanum, hdigit])
  · have hall : ['-', '+', '.', 'e', 'E'].all ProgramTrees.isSourceChar = true := by decide
    exact List.all_eq_true.mp hall c hmem

theorem Lexeme.sourceChars {lexeme : Lexeme} (h : lexeme.isLegible = true) :
    ∀ c ∈ lexeme.spelling.toList, isSourceChar c = true := by
  intro c hc
  match lexeme, h with
  | .int n, _ => exact (numberChars_int n.toInt c hc).isSourceChar
  | .float (.finite negative m q _), _ =>
    rw [Lexeme.spelling, String.toList_append] at hc
    rcases List.mem_append.mp hc with hc | hc
    · exact (numberChars_finiteLiteral negative m q c hc).isSourceChar
    · rw [List.mem_singleton.mp hc]
      rfl
  | .name word, h =>
    obtain ⟨hall, -⟩ := Bool.and_eq_true_iff.mp h
    exact isSourceChar_of_nameChar (List.all_eq_true.mp hall c hc)
  | .mark symbol, h =>
    rw [Lexeme.spelling, String.toList_singleton] at hc
    rw [List.mem_singleton.mp hc]
    exact isSourceChar_of_mem_marks (of_decide_eq_true h)

theorem sourceChars_spaced {lexemes : List Lexeme} (h : ∀ l ∈ lexemes, l.isLegible = true) :
    ∀ c ∈ spaced lexemes, isSourceChar c = true := by
  intro c hc
  obtain ⟨lexeme, hmem, hc⟩ := List.mem_flatMap.mp hc
  rcases List.mem_cons.mp hc with rfl | hc
  · rfl
  · exact Lexeme.sourceChars (h lexeme hmem) c hc

section Spelled

variable {text rest : List Char} {stop : Char} {source : String} {lexemes : List Lexeme}

theorem sourceChars_of_spaced (htext : ' ' :: source.toList = spaced lexemes)
    (hlegible : ∀ l ∈ lexemes, l.isLegible = true) : ∀ c ∈ source.toList, isSourceChar c = true :=
  fun c hc => sourceChars_spaced hlegible c (htext ▸ List.mem_cons_of_mem ' ' hc)

theorem ne_of_sourceChars (hstop : isSourceChar stop = false)
    (htext : ∀ c ∈ text, isSourceChar c = true) : ∀ c ∈ text, c ≠ stop := by
  rintro c hc rfl
  rw [htext c hc] at hstop
  exact nomatch hstop

theorem takeWhile_until (htext : ∀ c ∈ text, c ≠ stop) (hrest : ∀ c ∈ rest.head?, c = stop) :
    (text ++ rest).takeWhile (· ≠ stop) = text ∧ (text ++ rest).dropWhile (· ≠ stop) = rest := by
  have hall : ∀ c ∈ text, decide (c ≠ stop) = true := fun c hc => decide_eq_true (htext c hc)
  rw [List.takeWhile_append_of_pos hall, List.dropWhile_append_of_pos hall]
  cases rest with
  | nil => exact ⟨List.append_nil _, rfl⟩
  | cons c rest =>
    obtain rfl := hrest c rfl
    simp

theorem lexemes?_before_sign (htext : ' ' :: source.toList = spaced lexemes)
    (hlegible : ∀ l ∈ lexemes, l.isLegible = true) {after : List Char}
    (hafter : ∀ c ∈ after.head?, c = '>') :
    lexemes? (String.ofList ((source.toList ++ [' '] ++ after).takeWhile (· ≠ '>'))) =
        some lexemes ∧
      (source.toList ++ [' '] ++ after).dropWhile (· ≠ '>') = after := by
  have hchars : ∀ c ∈ source.toList ++ [' '], c ≠ '>' :=
    List.forall_mem_append.mpr ⟨ne_of_sourceChars rfl (sourceChars_of_spaced htext hlegible),
      List.forall_mem_singleton.mpr (by decide)⟩
  have hblank : ∀ c ∈ [' '], c = ' ' := by simp
  obtain ⟨htake, hdrop⟩ := takeWhile_until hchars hafter
  refine ⟨?_, hdrop⟩
  rw [htake]
  refine lexemes?_of_spaced_append hlegible hblank ?_
  rw [String.toList_ofList, ← List.cons_append, htext]

end Spelled

end ProgramTrees
