import ProgramTrees.Proofs.Lexing
import ProgramTrees.Value

namespace ProgramTrees

/-- The characters of finite numbers, of printed values and of literals. -/
def IsNumberChar (c : Char) : Prop :=
  c.isDigit = true ∨ c ∈ ['-', '+', '.', 'e', 'E']

section Layouts

variable {digits : List Char}

theorem numberChars_digits (hdigits : ∀ c ∈ digits, c.isDigit = true) :
    ∀ c ∈ digits, IsNumberChar c :=
  fun c hc => .inl (hdigits c hc)

theorem forall_mem_positional {P : Char → Prop} (hdigits : ∀ c ∈ digits, P c) (hzero : P '0')
    (hpoint : P '.') (point : Int) : ∀ c ∈ (positional digits point).toList, P c := by
  have hzeros (k : Nat) : ∀ c ∈ List.replicate k '0', P c := by
    intro c hc
    rwa [List.eq_of_mem_replicate hc]
  unfold positional
  split
  next =>
    rw [String.toList_ofList]
    refine List.forall_mem_append.mpr ⟨List.forall_mem_append.mpr ⟨?_, hzeros _⟩, hdigits⟩
    exact List.forall_mem_cons.mpr ⟨hzero, List.forall_mem_singleton.mpr hpoint⟩
  next =>
    rw [String.toList_ofList]
    refine List.forall_mem_append.mpr ⟨List.forall_mem_append.mpr
      ⟨fun c hc => hdigits c (List.mem_of_mem_take hc), hzeros _⟩,
      List.forall_mem_cons.mpr ⟨hpoint, ?_⟩⟩
    split
    next => exact List.forall_mem_singleton.mpr hzero
    next => exact fun c hc => hdigits c (List.mem_of_mem_drop hc)

theorem numberChars_positional (hdigits : ∀ c ∈ digits, c.isDigit = true) (point : Int) :
    ∀ c ∈ (positional digits point).toList, IsNumberChar c :=
  forall_mem_positional (numberChars_digits hdigits) (.inl (by decide)) (.inr (by decide)) point

theorem numberChars_scientific {style : ScientificStyle} {exponent : Int}
    (hlone : ∀ digit, digit.isDigit = true → ∀ c ∈ style.lone digit, IsNumberChar c)
    (hexponent : ∀ c ∈ (style.exponent exponent).toList, IsNumberChar c)
    (hdigits : ∀ c ∈ digits, c.isDigit = true) :
    ∀ c ∈ (style.text digits exponent).toList, IsNumberChar c := by
  unfold ScientificStyle.text
  rw [String.toList_append, String.toList_ofList]
  refine List.forall_mem_append.mpr ⟨?_, hexponent⟩
  match digits, hdigits with
  | [], _ => exact nofun
  | [digit], hdigits => exact hlone digit (hdigits digit (by simp))
  | digit :: next :: rest, hdigits =>
    obtain ⟨hdigit, hrest⟩ := List.forall_mem_cons.mp hdigits
    exact List.forall_mem_cons.mpr ⟨.inl hdigit,
      List.forall_mem_cons.mpr ⟨.inr (by decide), numberChars_digits hrest⟩⟩

theorem numberChars_withSign {text : String} (h : ∀ c ∈ text.toList, IsNumberChar c)
    (negative : Bool) : ∀ c ∈ (withSign negative text).toList, IsNumberChar c := by
  cases negative with
  | false => exact h
  | true =>
    rw [withSign, if_pos rfl, String.toList_append]
    exact List.forall_mem_append.mpr ⟨List.forall_mem_singleton.mpr (.inr (by decide)), h⟩

theorem numberChars_int (n : Int) : ∀ c ∈ (toString n).toList, IsNumberChar c := by
  have hdigits := numberChars_digits (isDigit_toDigits n.natAbs)
  rw [toList_toString]
  split
  next => exact List.forall_mem_cons.mpr ⟨.inr (by decide), hdigits⟩
  next => exact hdigits

end Layouts

theorem numberChars_zero : ∀ c ∈ "0.0".toList, IsNumberChar c := by
  have hzero : IsNumberChar '0' := .inl (by decide)
  exact List.forall_mem_cons.mpr ⟨hzero, List.forall_mem_cons.mpr
    ⟨.inr (by decide), List.forall_mem_singleton.mpr hzero⟩⟩

theorem numberChars_literalExponent (e : Int) :
    ∀ c ∈ (literalStyle.exponent e).toList, IsNumberChar c := by
  obtain ⟨digits, htext, hdigits, -⟩ := literalStyle_exponent e
  have hsign (negative : Bool) : IsNumberChar (exponentSign negative) := by
    cases negative
    · exact .inr (by decide)
    · exact .inr (by decide)
  rw [htext]
  exact List.forall_mem_cons.mpr ⟨.inr (by decide),
    List.forall_mem_cons.mpr ⟨hsign _, numberChars_digits hdigits⟩⟩

theorem numberChars_finiteLiteral (negative : Bool) (m : Nat) (q : Int) :
    ∀ c ∈ (finiteLiteral negative m q).toList, IsNumberChar c := by
  refine numberChars_withSign ?_ negative
  split
  next => exact numberChars_zero
  next =>
    split
    next => exact numberChars_positional (digits_isDigit _) _
    next =>
      refine numberChars_scientific ?_ (numberChars_literalExponent _) (digits_isDigit _)
      exact fun digit hdigit => List.forall_mem_singleton.mpr (.inl hdigit)

theorem numberChars_finiteValue (negative : Bool) (m : Nat) (q : Int)
    (fits : Format.single.Fits m q) :
    ∀ c ∈ (Binary.finite negative m q fits).valueText.toList, IsNumberChar c := by
  refine numberChars_withSign ?_ negative
  split
  next => exact numberChars_zero
  next =>
    split
    next => exact numberChars_positional (digits_isDigit _) _
    next =>
      refine numberChars_scientific ?_ ?_ (digits_isDigit _)
      · intro digit hdigit
        exact List.forall_mem_cons.mpr ⟨.inl hdigit, List.forall_mem_cons.mpr
          ⟨.inr (by decide), numberChars_digits isDigit_zero⟩⟩
      · unfold valueStyle
        rw [String.toList_append]
        exact List.forall_mem_append.mpr
          ⟨List.forall_mem_singleton.mpr (.inr (by decide)), numberChars_int _⟩

theorem Value.text_some_ne_none (v : Value) : Value.text (some v) ≠ Value.text none := by
  have hn : ¬ IsNumberChar 'n' := by
    rintro (h | h)
    · exact absurd h (by decide)
    · exact absurd h (by decide)
  have hfinite {text : String} (h : ∀ c ∈ text.toList, IsNumberChar c) : text ≠ Value.text none :=
    fun heq => hn (h 'n' (heq ▸ by decide))
  match v with
  | .int n => exact hfinite (numberChars_int n.toInt)
  | .float .nan => decide
  | .float (.infinite negative) => cases negative <;> decide
  | .float (.finite negative m q fits) => exact hfinite (numberChars_finiteValue negative m q fits)

end ProgramTrees
