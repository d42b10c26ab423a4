import Mathlib.Data.List.TakeWhile
import ProgramTrees.Proofs.Grammar
import ProgramTrees.Proofs.NumeralReading

namespace ProgramTrees

def Lexeme.spelling : Lexeme → String
  | .int n => toString n.toInt
  | .float x => x.literalText ++ "f"
  | .name word => word
  | .mark symbol => String.singleton symbol

def Binary.isFinite {f : Format} : Binary f → Bool
  | .finite .. => true
  | _ => false

/-- Lexemes that can be read from their spelling. -/
def Lexeme.isLegible : Lexeme → Bool
  | .int _ => true
  | .float x => x.isFinite
  | .name word => isName word
  | .mark symbol => symbol ∈ marks

/-- What follows a lexeme: the end of the text or a blank. -/
def AtBlank (rest : List Char) : Prop :=
  ∀ c ∈ rest.head?, c = ' '

section Characters

variable {c : Char} {rest : List Char}

theorem AtBlank.noDigitFirst (h : AtBlank rest) : NoDigitFirst rest := by
  intro c hc
  rw [h c hc]
  decide

theorem AtBlank.ne_cons (h : AtBlank rest) (hc : c ≠ ' ') (t : List Char) : rest ≠ c :: t := by
  intro heq
  exact hc (h c (by rw [heq]; rfl))

theorem AtBlank.endsNumeral (h : AtBlank rest) : EndsNumeral rest :=
  ⟨h.noDigitFirst, h.ne_cons (by decide), h.ne_cons (by decide), h.ne_cons (by decide)⟩

theorem endsNumeral_fraction (rest : List Char) : EndsNumeral ('f' :: rest) :=
  ⟨noDigitFirst_cons (by decide) rest, by simp, by simp, by simp⟩

theorem lexeme?_blank (h : isBlank c = true) : lexeme? (c :: rest) = none := by
  simp only [isBlank, Bool.or_eq_true, decide_eq_true_eq] at h
  obtain (((rfl | rfl) | rfl) | rfl) | rfl := h <;> rfl

theorem isNameChar_of_mem_marks (h : c ∈ marks) : isNameChar c = false := by
  have hall : marks.all (fun c => !isNameChar c) = true := by decide
  simpa using List.all_eq_true.mp hall c h

theorem isDigit_of_mem_marks (h : c ∈ marks) : c.isDigit = false := by
  have hall : marks.all (fun c => !c.isDigit) = true := by decide
  simpa using List.all_eq_true.mp hall c h

end Characters

section Numerals

variable {text rest : List Char} {numeral : Numeral}

theorem exists_digit_of_readUnsigned? {negative : Bool}
    (h : readUnsigned? negative text = some (numeral, rest)) :
    ∃ c t, text = c :: t ∧ c.isDigit = true := by
  obtain ⟨⟨digits, after⟩, hwhole, -⟩ := Option.map_eq_some_iff.mp h
  unfold wholeDigits? at hwhole
  split at hwhole
  next t => exact ⟨'0', t, rfl, by decide⟩
  next =>
    unfold takeDigits? at hwhole
    cases text with
    | nil => exact nomatch hwhole
    | cons c t =>
      refine ⟨c, t, rfl, ?_⟩
      by_contra hc
      simp [hc] at hwhole

theorem readNumeral?_signed {negative : Bool}
    (h : readUnsigned? negative text = some (numeral, rest)) :
    readNumeral? (if negative then '-' :: text else text) = some (numeral, rest) := by
  obtain ⟨c, t, rfl, hc⟩ := exists_digit_of_readUnsigned? h
  cases negative with
  | true => exact h
  | false =>
    have hsign : ∀ t', c :: t ≠ '-' :: t' := by
      intro t' heq
      rw [(List.cons.inj heq).1] at hc
      exact absurd hc (by decide)
    rw [if_neg (by decide), readNumeral?]
    · exact h
    · exact hsign

theorem lexeme?_numeral {negative : Bool}
    (h : readUnsigned? negative text = some (numeral, rest)) :
    lexeme? (if negative then '-' :: text else text) = literal? numeral rest := by
  obtain ⟨c, t, rfl, hc⟩ := exists_digit_of_readUnsigned? h
  cases negative with
  | false =>
    simp only [Bool.false_eq_true, if_false]
    simp [lexeme?, hc, h]
  | true =>
    have hsign : ('-'.isDigit) = false := by decide
    simp only [if_true]
    simp [lexeme?, hsign, hc, h]

end Numerals

section Literals

variable {rest : List Char}

theorem toList_toString (e : Int) : (toString e).toList =
    if decide (e < 0) then '-' :: Nat.toDigits 10 e.natAbs else Nat.toDigits 10 e.natAbs := by
  cases e with
  | ofNat m =>
    have htext : toString (Int.ofNat m) = Nat.repr m := rfl
    rw [htext, Nat.toList_repr]
    rfl
  | negSucc m =>
    have htext : toString (Int.negSucc m) = "-" ++ Nat.repr (m + 1) := rfl
    have hneg : Int.negSucc m < 0 := Int.negSucc_lt_zero m
    rw [htext, String.toList_append, Nat.toList_repr, decide_eq_true hneg]
    rfl

theorem lexeme?_int (n : Int32) (hrest : AtBlank rest) :
    lexeme? ((Lexeme.int n).spelling.toList ++ rest) = some (.int n, rest) := by
  have hread := readUnsigned?_integer (decide (n.toInt < 0)) (wholeDigits_toDigits n.toInt.natAbs)
    hrest.endsNumeral
  have hlexeme := lexeme?_numeral hread
  have htext : (Lexeme.int n).spelling.toList ++ rest = if decide (n.toInt < 0) then
      '-' :: (Nat.toDigits 10 n.toInt.natAbs ++ rest)
      else Nat.toDigits 10 n.toInt.natAbs ++ rest := by
    rw [Lexeme.spelling, toList_toString]
    split <;> rfl
  rw [htext, hlexeme]
  unfold literal?
  split
  next t => exact absurd rfl (hrest.ne_cons (by decide) t)
  next =>
    simp only [digitsValue_toDigits, signed_natAbs, Int32.ofInt_toInt]
    simp

theorem finiteLiteral_eq (negative : Bool) (m : Nat) (q : Int) :
    (finiteLiteral negative m q).toList =
      if negative then '-' :: (finiteLiteral false m q).toList
      else (finiteLiteral false m q).toList := by
  cases negative with
  | false => rfl
  | true => simp [finiteLiteral, withSign]

theorem lexeme?_float {x : Double} (hx : x.isFinite = true) (rest : List Char) :
    lexeme? ((Lexeme.float x).spelling.toList ++ rest) = some (.float x, rest) := by
  cases x with
  | nan | infinite => exact nomatch hx
  | finite negative m q fits =>
    obtain ⟨value, hreads, hround⟩ := readsAs_finiteLiteral fits
    obtain ⟨numeral, hread, hnegative, -, hvalue⟩ :=
      hreads negative ('f' :: rest) (endsNumeral_fraction rest)
    have hlexeme := lexeme?_numeral hread
    have htext : (Lexeme.float (.finite negative m q fits)).spelling.toList ++ rest =
        if negative then '-' :: ((finiteLiteral false m q).toList ++ 'f' :: rest)
        else (finiteLiteral false m q).toList ++ 'f' :: rest := by
      have happend : (Lexeme.float (.finite negative m q fits)).spelling.toList ++ rest =
          (finiteLiteral negative m q).toList ++ 'f' :: rest := by
        simp [Lexeme.spelling, Binary.literalText]
      rw [happend, finiteLiteral_eq]
      split <;> rfl
    rw [htext, hlexeme, literal?, hnegative, hround numeral.decimal hvalue negative]

end Literals

section Spelling

variable {rest : List Char}

theorem lexeme?_name {name : String} (hname : isName name = true) (hrest : AtBlank rest) :
    lexeme? (name.toList ++ rest) = some (.name name, rest) := by
  obtain ⟨hall, hhead⟩ := Bool.and_eq_true_iff.mp hname
  have hchars : ∀ c ∈ name.toList, isNameChar c = true := List.all_eq_true.mp hall
  have htake : (name.toList ++ rest).takeWhile isNameChar = name.toList := by
    rw [List.takeWhile_append_of_pos hchars]
    cases rest with
    | nil => simp
    | cons c t => rw [hrest c rfl]; simp [isNameChar]
  have hdrop : (name.toList ++ rest).dropWhile isNameChar = rest := by
    rw [List.dropWhile_append_of_pos hchars]
    cases rest with
    | nil => rfl
    | cons c t => rw [hrest c rfl]; rfl
  rcases hlist : name.toList with _ | ⟨c, t⟩
  · rw [hlist] at hhead
    exact nomatch hhead
  · rw [hlist] at hhead hchars htake hdrop
    have hdigit : c.isDigit = false := by simpa using hhead
    have hchar : isNameChar c = true := hchars c (List.mem_cons_self ..)
    have hmark : c ∉ marks := by
      intro hmem
      rw [isNameChar_of_mem_marks hmem] at hchar
      exact nomatch hchar
    have hsign : ¬ (c = '-' ∨ c = '+') := by
      intro h
      exact hmark (by rcases h with rfl | rfl <;> decide)
    rw [List.cons_append, List.takeWhile_cons_of_pos hchar] at htake
    rw [List.cons_append, List.dropWhile_cons_of_pos hchar] at hdrop
    have hspelled : String.ofList (c :: (t ++ rest).takeWhile isNameChar) = name := by
      rw [htake, ← hlist, String.ofList_toList]
    simp [lexeme?, hdigit, hsign, hmark, hchar, hspelled, hdrop]

theorem lexeme?_mark {symbol : Char} (hmark : symbol ∈ marks) (hrest : AtBlank rest) :
    lexeme? (symbol :: rest) = some (.mark symbol, rest) := by
  have hdigit : symbol.isDigit = false := isDigit_of_mem_marks hmark
  have hnext : rest.head?.any Char.isDigit = false := by
    cases rest with
    | nil => rfl
    | cons c t => rw [hrest c rfl]; rfl
  simp [lexeme?, hdigit, hnext, hmark]

theorem lexeme?_spelling {lexeme : Lexeme} (h : lexeme.isLegible = true) (hrest : AtBlank rest) :
    lexeme? (lexeme.spelling.toList ++ rest) = some (lexeme, rest) := by
  cases lexeme with
  | int n => exact lexeme?_int n hrest
  | float x => exact lexeme?_float h rest
  | name word => exact lexeme?_name h hrest
  | mark symbol =>
    have hmark : symbol ∈ marks := of_decide_eq_true h
    rw [Lexeme.spelling, String.toList_singleton]
    exact lexeme?_mark hmark hrest

/-- Lexemes with a blank before each. -/
def spaced (lexemes : List Lexeme) : List Char :=
  lexemes.flatMap fun lexeme => ' ' :: lexeme.spelling.toList

theorem atBlank_spaced (lexemes : List Lexeme) : AtBlank (spaced lexemes) := by
  intro c hc
  cases lexemes with
  | nil => exact nomatch hc
  | cons lexeme rest => simpa [spaced, eq_comm] using hc

theorem AtBlank.append {blanks : List Char} (h : AtBlank rest) (hblanks : ∀ c ∈ blanks, c = ' ') :
    AtBlank (rest ++ blanks) := by
  intro c hc
  cases rest with
  | nil => exact hblanks c (List.mem_of_mem_head? hc)
  | cons d t => exact h c hc

theorem spelling_ne_nil {lexeme : Lexeme} (h : lexeme.isLegible = true) :
    lexeme.spelling.toList ≠ [] := by
  intro hnil
  have hread : lexeme? (lexeme.spelling.toList ++ []) = some (lexeme, []) :=
    lexeme?_spelling h (fun _ hc => nomatch hc)
  rw [hnil] at hread
  exact nomatch hread

theorem length_le_spaced {lexemes : List Lexeme} (h : ∀ l ∈ lexemes, l.isLegible = true) :
    2 * lexemes.length ≤ (spaced lexemes).length := by
  induction lexemes with
  | nil => exact Nat.le_refl _
  | cons lexeme lexemes ih =>
    have hpos : 0 < lexeme.spelling.toList.length :=
      List.length_pos_iff.mpr (spelling_ne_nil (h lexeme (List.mem_cons_self ..)))
    have hrest := ih fun l hl => h l (List.mem_cons_of_mem _ hl)
    have hlength : (spaced (lexeme :: lexemes)).length =
        lexeme.spelling.toList.length + 1 + (spaced lexemes).length := by
      simp [spaced]
      omega
    rw [hlength, List.length_cons]
    omega

theorem lexemesWithin?_spaced {lexemes : List Lexeme} (h : ∀ l ∈ lexemes, l.isLegible = true)
    {budget : Nat} (hbudget : lexemes.length < budget) {blanks : List Char}
    (hblanks : ∀ c ∈ blanks, c = ' ') :
    lexemesWithin? budget (spaced lexemes ++ blanks) = some lexemes := by
  induction lexemes generalizing budget with
  | nil =>
    obtain ⟨budget, rfl⟩ : ∃ b, budget = b + 1 := ⟨budget - 1, by omega⟩
    have hdrop : blanks.dropWhile isBlank = [] :=
      List.dropWhile_eq_nil_iff.mpr fun c hc => by rw [hblanks c hc]; rfl
    rw [spaced, List.flatMap_nil, List.nil_append, lexemesWithin?, hdrop]
  | cons lexeme lexemes ih =>
    obtain ⟨budget, rfl⟩ : ∃ b, budget = b + 1 := ⟨budget - 1, by omega⟩
    have hread : lexeme? (lexeme.spelling.toList ++ (spaced lexemes ++ blanks)) =
        some (lexeme, spaced lexemes ++ blanks) :=
      lexeme?_spelling (h lexeme (List.mem_cons_self ..)) ((atBlank_spaced lexemes).append hblanks)
    have hlt : lexemes.length < budget := Nat.lt_of_succ_lt_succ hbudget
    have htail : lexemesWithin? budget (spaced lexemes ++ blanks) = some lexemes :=
      ih (fun l hl => h l (List.mem_cons_of_mem _ hl)) hlt
    have htext : spaced (lexeme :: lexemes) ++ blanks =
        ' ' :: (lexeme.spelling.toList ++ (spaced lexemes ++ blanks)) := by
      simp [spaced]
    have hdrop : (spaced (lexeme :: lexemes) ++ blanks).dropWhile isBlank =
        lexeme.spelling.toList ++ (spaced lexemes ++ blanks) := by
      rw [htext, List.dropWhile_cons_of_pos (by decide)]
      cases hcs : lexeme.spelling.toList ++ (spaced lexemes ++ blanks) with
      | nil => rfl
      | cons c t =>
        have hblank : ¬ isBlank c = true := by
          intro hblank
          rw [hcs, lexeme?_blank hblank] at hread
          exact nomatch hread
        exact List.dropWhile_cons_of_neg hblank
    rw [lexemesWithin?, hdrop]
    split
    next hnil =>
      rw [hnil] at hread
      exact nomatch hread
    next => simp [hread, htail]

theorem lexemes?_spaced {lexemes : List Lexeme} (h : ∀ l ∈ lexemes, l.isLegible = true) :
    lexemes? (String.ofList (spaced lexemes)) = some lexemes := by
  have hle := length_le_spaced h
  have hnone : ∀ c ∈ ([] : List Char), c = ' ' := nofun
  have hread : lexemesWithin? ((spaced lexemes).length + 1) (spaced lexemes ++ []) = some lexemes :=
    lexemesWithin?_spaced h (by omega) hnone
  rw [List.append_nil] at hread
  rw [lexemes?, String.toList_ofList]
  exact hread

theorem spaced_injective {lexemes lexemes' : List Lexeme} (h : ∀ l ∈ lexemes, l.isLegible = true)
    (h' : ∀ l ∈ lexemes', l.isLegible = true) (heq : spaced lexemes = spaced lexemes') :
    lexemes = lexemes' := by
  have hread := lexemes?_spaced h
  rw [heq, lexemes?_spaced h'] at hread
  exact (Option.some.inj hread).symm

/-- Legible lexemes with blanks between them are read back, also where a blank follows. -/
theorem lexemes?_of_spaced_append {lexemes : List Lexeme} {text : String} {blanks : List Char}
    (h : ∀ l ∈ lexemes, l.isLegible = true) (hblanks : ∀ c ∈ blanks, c = ' ')
    (htext : ' ' :: text.toList = spaced lexemes ++ blanks) : lexemes? text = some lexemes := by
  have hlength : text.toList.length + 1 = (spaced lexemes).length + blanks.length := by
    rw [← List.length_append, ← htext, List.length_cons]
  have hle := length_le_spaced h
  have hread : lexemesWithin? (text.toList.length + 1) (spaced lexemes ++ blanks) = some lexemes :=
    lexemesWithin?_spaced h (by omega) hblanks
  rw [← htext, lexemesWithin?] at hread
  rw [lexemes?, lexemesWithin?]
  exact hread

theorem lexemes?_of_spaced {lexemes : List Lexeme} {text : String}
    (h : ∀ l ∈ lexemes, l.isLegible = true) (htext : ' ' :: text.toList = spaced lexemes) :
    lexemes? text = some lexemes := by
  have hnone : ∀ c ∈ ([] : List Char), c = ' ' := nofun
  exact lexemes?_of_spaced_append h hnone (by rw [htext, List.append_nil])

end Spelling

end ProgramTrees
