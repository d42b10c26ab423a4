import ProgramTrees.JsonText
import ProgramTrees.Proofs.Lexing

namespace ProgramTrees

variable {text rest : List Char}

theorem readWord?_digit {c : Char} (hc : c.isDigit = true) (t : List Char) :
    readWord? (c :: t) = none ∧ readWord? ('-' :: c :: t) = none := by
  have hne (d : Char) (hd : d.isDigit = false) : (d == c) = false := by
    rw [beq_eq_false_iff_ne]
    rintro rfl
    rw [hc] at hd
    exact nomatch hd
  simp [readWord?, jsonWords, List.isPrefixOf?, hne 'n' (by decide), hne 't' (by decide),
    hne 'f' (by decide), hne 'N' (by decide), hne 'I' (by decide), hne '-' (by decide)]

theorem readScalar_numeral {negative : Bool} {numeral : Numeral} {value : Json}
    (h : readUnsigned? negative text = some (numeral, rest)) (hvalue : numeral.toJson = .ok value) :
    readScalar (if negative then '-' :: text else text) = .ok (value, rest) := by
  have hnumeral := readNumeral?_signed h
  obtain ⟨c, t, rfl, hc⟩ := exists_digit_of_readUnsigned? h
  obtain ⟨hplain, hsigned⟩ := readWord?_digit hc t
  have hword : readWord? (if negative then '-' :: c :: t else c :: t) = none := by
    cases negative with
    | true => exact hsigned
    | false => exact hplain
  rw [readScalar, hword]
  dsimp only
  rw [hnumeral]
  dsimp only
  rw [hvalue]
  rfl

theorem readScalar_int {n : Int} (hn : n.natAbs < Nat.pow 10 maxIntegerDigits)
    (hrest : EndsNumeral rest) :
    readScalar ((toString n).toList ++ rest) = .ok (.int n, rest) := by
  have htext : (toString n).toList ++ rest = if decide (n < 0) then
      '-' :: (Nat.toDigits 10 n.natAbs ++ rest) else Nat.toDigits 10 n.natAbs ++ rest := by
    rw [toList_toString]
    split <;> rfl
  have hvalue : (Numeral.mk (decide (n < 0)) (Nat.toDigits 10 n.natAbs) [] none).toJson =
      .ok (.int n) := by
    have hsigned := signed_natAbs n
    unfold signed at hsigned
    have hlength : ∀ most, 0 < most → n.natAbs < Nat.pow 10 most →
        ¬ most < (Nat.toDigits 10 n.natAbs).length := fun most hmost h =>
      Nat.not_lt.mpr ((Nat.length_toDigits_le_iff (by decide) hmost).mpr h)
    have hshort := hlength maxIntegerDigits (by decide) hn
    simp only [Numeral.toJson, List.isEmpty_nil, digitsValue_toDigits, and_self, if_true, hsigned,
      if_neg hshort]
  rw [htext]
  exact readScalar_numeral (readUnsigned?_integer (decide (n < 0))
    (wholeDigits_toDigits n.natAbs) hrest) hvalue

theorem readScalar_float (x : Double) (hrest : EndsNumeral rest) :
    readScalar (x.jsonText.toList ++ rest) = .ok (.float x, rest) := by
  cases x with
  | nan => rfl
  | infinite negative => cases negative <;> rfl
  | finite negative m q fits =>
    obtain ⟨value, hreads, hround⟩ := readsAs_finiteLiteral fits
    obtain ⟨numeral, hread, hnegative, hfraction, hvalue⟩ := hreads negative rest hrest
    have htext : (Binary.finite negative m q fits).jsonText.toList ++ rest = if negative then
        '-' :: ((finiteLiteral false m q).toList ++ rest)
        else (finiteLiteral false m q).toList ++ rest := by
      rw [Binary.jsonText, finiteLiteral_eq]
      split <;> rfl
    rw [htext]
    refine readScalar_numeral hread ?_
    rw [Numeral.toJson, if_neg hfraction, hnegative, hround numeral.decimal hvalue negative]

end ProgramTrees
