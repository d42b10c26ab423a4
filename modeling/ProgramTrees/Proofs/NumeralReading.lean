import Mathlib.Tactic.IntervalCases
import ProgramTrees.JsonReader
import ProgramTrees.NumberText
import ProgramTrees.Proofs.ShortestDecimal

namespace ProgramTrees

def NoDigitFirst (rest : List Char) : Prop :=
  ∀ c ∈ rest.head?, c.isDigit = false

structure EndsNumeral (rest : List Char) : Prop where
  digit : NoDigitFirst rest
  point : ∀ t, rest ≠ '.' :: t
  small : ∀ t, rest ≠ 'e' :: t
  capital : ∀ t, rest ≠ 'E' :: t

/-- Digits that can stand before the point: a zero stands alone. -/
structure WholeDigits (digits : List Char) : Prop where
  all : ∀ c ∈ digits, c.isDigit = true
  nonempty : digits ≠ []
  zero : ∀ t, digits = '0' :: t → t = []

section Digits

variable {digits rest : List Char}

theorem isDigit_zero : ∀ c ∈ ['0'], c.isDigit = true :=
  List.forall_mem_singleton.mpr (by decide)

theorem digitsValue_eq (digits : List Char) : digitsValue digits = Nat.ofDigitChars 10 digits 0 :=
  rfl

theorem digitsValue_toDigits (n : Nat) : digitsValue (Nat.toDigits 10 n) = n :=
  Nat.ofDigitChars_ten_toDigits

theorem digitsValue_zeros (k : Nat) (digits : List Char) :
    digitsValue (List.replicate k '0' ++ digits) = digitsValue digits := by
  rw [digitsValue_eq, Nat.ofDigitChars_append, Nat.ofDigitChars_replicate_zero, Nat.mul_zero,
    digitsValue_eq]

theorem digitsValue_append_zeros (digits : List Char) (k : Nat) :
    digitsValue (digits ++ List.replicate k '0') = digitsValue digits * 10 ^ k := by
  rw [digitsValue_eq, Nat.ofDigitChars_append, Nat.ofDigitChars_replicate_zero, digitsValue_eq,
    Nat.mul_comm]

theorem isDigit_toDigits (n : Nat) : ∀ c ∈ Nat.toDigits 10 n, c.isDigit = true :=
  fun _ hc => Nat.isDigit_of_mem_toDigits (by norm_num) (by norm_num) hc

theorem head?_toDigits_ne_zero {n : Nat} (hn : 0 < n) :
    (Nat.toDigits 10 n).head? ≠ some '0' := by
  induction n using Nat.strongRecOn with
  | ind n ih =>
    rcases Nat.lt_or_ge n 10 with hlt | hge
    · rw [Nat.toDigits_of_lt_base hlt]
      interval_cases n <;> decide
    · rw [Nat.toDigits_of_base_le (by norm_num) hge,
        List.head?_append_of_ne_nil _ Nat.toDigits_ne_nil]
      exact ih (n / 10) (by omega) (by omega)

theorem wholeDigits_toDigits (n : Nat) : WholeDigits (Nat.toDigits 10 n) := by
  refine ⟨isDigit_toDigits n, Nat.toDigits_ne_nil, ?_⟩
  intro t h
  rcases Nat.eq_zero_or_pos n with rfl | hn
  · exact (List.cons.inj h).2.symm
  · exact absurd (by rw [h]; rfl) (head?_toDigits_ne_zero hn)

theorem takeDigits?_append (hall : ∀ c ∈ digits, c.isDigit = true) (hne : digits ≠ [])
    (hrest : NoDigitFirst rest) : takeDigits? (digits ++ rest) = some (digits, rest) := by
  have htake : rest.takeWhile Char.isDigit = [] := by
    cases rest with
    | nil => rfl
    | cons c t => rw [List.takeWhile_cons, hrest c rfl]; rfl
  have hdrop : rest.dropWhile Char.isDigit = rest := by
    cases rest with
    | nil => rfl
    | cons c t => rw [List.dropWhile_cons, hrest c rfl]; rfl
  unfold takeDigits?
  rw [List.takeWhile_append_of_pos hall, List.dropWhile_append_of_pos hall, htake, hdrop,
    List.append_nil]
  simp [hne]

theorem wholeDigits?_append (h : WholeDigits digits) (hrest : NoDigitFirst rest) :
    wholeDigits? (digits ++ rest) = some (digits, rest) := by
  obtain ⟨c, t, rfl⟩ := List.exists_cons_of_ne_nil h.nonempty
  unfold wholeDigits?
  split
  next after heq =>
    obtain ⟨rfl, hafter⟩ := List.cons.inj heq
    obtain rfl := h.zero t rfl
    exact hafter ▸ rfl
  next => exact takeDigits?_append h.all h.nonempty hrest

theorem fractionDigits?_append (hall : ∀ c ∈ digits, c.isDigit = true) (hne : digits ≠ [])
    (hrest : NoDigitFirst rest) :
    fractionDigits? ('.' :: (digits ++ rest)) = some (digits, rest) :=
  takeDigits?_append hall hne hrest

theorem fractionDigits?_eq_none (hrest : ∀ t, rest ≠ '.' :: t) : fractionDigits? rest = none := by
  unfold fractionDigits?
  split
  next t => exact absurd rfl (hrest t)
  next => rfl

theorem exponentPart?_eq_none (hrest : EndsNumeral rest) : exponentPart? rest = none := by
  unfold exponentPart?
  split
  next t => exact absurd rfl (hrest.small t)
  next t => exact absurd rfl (hrest.capital t)
  next => rfl

def exponentSign (negative : Bool) : Char :=
  if negative then '-' else '+'

theorem exponentPart?_append (negative : Bool) (hall : ∀ c ∈ digits, c.isDigit = true)
    (hne : digits ≠ []) (hrest : NoDigitFirst rest) :
    exponentPart? ('e' :: exponentSign negative :: (digits ++ rest)) =
      some (signed negative (digitsValue digits), rest) := by
  cases negative with
  | false | true =>
    change Option.map _ (takeDigits? (digits ++ rest)) = _
    rw [takeDigits?_append hall hne hrest]
    rfl

end Digits

section Numerals

variable {whole fraction digits rest : List Char}

theorem noDigitFirst_cons {c : Char} (hc : c.isDigit = false) (rest : List Char) :
    NoDigitFirst (c :: rest) := by
  intro d hd
  obtain rfl : c = d := by simpa using hd
  exact hc

theorem readUnsigned?_integer (negative : Bool) (hwhole : WholeDigits whole)
    (hrest : EndsNumeral rest) :
    readUnsigned? negative (whole ++ rest) = some (⟨negative, whole, [], none⟩, rest) := by
  unfold readUnsigned?
  rw [wholeDigits?_append hwhole hrest.digit, Option.map_some]
  dsimp only
  rw [fractionDigits?_eq_none hrest.point]
  simp [exponentPart?_eq_none hrest]

theorem readUnsigned?_fraction (negative : Bool) (hwhole : WholeDigits whole)
    (hall : ∀ c ∈ fraction, c.isDigit = true) (hne : fraction ≠ []) (hrest : EndsNumeral rest) :
    readUnsigned? negative (whole ++ '.' :: (fraction ++ rest)) =
      some (⟨negative, whole, fraction, none⟩, rest) := by
  unfold readUnsigned?
  rw [wholeDigits?_append hwhole (noDigitFirst_cons (by decide) _), Option.map_some]
  dsimp only
  rw [fractionDigits?_append hall hne hrest.digit]
  simp [exponentPart?_eq_none hrest]

theorem readUnsigned?_exponent (negative below : Bool) (hwhole : WholeDigits whole)
    (hdigits : ∀ c ∈ digits, c.isDigit = true) (hne : digits ≠ []) (hrest : NoDigitFirst rest) :
    readUnsigned? negative (whole ++ 'e' :: exponentSign below :: (digits ++ rest)) =
      some (⟨negative, whole, [], some (signed below (digitsValue digits))⟩, rest) := by
  unfold readUnsigned?
  rw [wholeDigits?_append hwhole (noDigitFirst_cons (by decide) _), Option.map_some]
  dsimp only
  rw [fractionDigits?_eq_none (by simp)]
  simp [exponentPart?_append below hdigits hne hrest]

theorem readUnsigned?_fraction_exponent {after : List Char} {e : Int} (negative : Bool)
    (hwhole : WholeDigits whole) (hall : ∀ c ∈ fraction, c.isDigit = true) (hne : fraction ≠ [])
    (hafter : NoDigitFirst after) (hexponent : exponentPart? after = some (e, rest)) :
    readUnsigned? negative (whole ++ '.' :: (fraction ++ after)) =
      some (⟨negative, whole, fraction, some e⟩, rest) := by
  unfold readUnsigned?
  rw [wholeDigits?_append hwhole (noDigitFirst_cons (by decide) _), Option.map_some]
  dsimp only
  rw [fractionDigits?_append hall hne hafter]
  simp [hexponent]

theorem readUnsigned?_scientific (negative below : Bool) (hwhole : WholeDigits whole)
    (hall : ∀ c ∈ fraction, c.isDigit = true) (hfraction : fraction ≠ [])
    (hdigits : ∀ c ∈ digits, c.isDigit = true) (hne : digits ≠ []) (hrest : NoDigitFirst rest) :
    readUnsigned? negative
        (whole ++ '.' :: (fraction ++ 'e' :: exponentSign below :: (digits ++ rest))) =
      some (⟨negative, whole, fraction, some (signed below (digitsValue digits))⟩, rest) :=
  readUnsigned?_fraction_exponent negative hwhole hall hfraction (noDigitFirst_cons (by decide) _)
    (exponentPart?_append below hdigits hne hrest)

end Numerals

/-- A text that is read, whatever follows, as a numeral with a fraction or an exponent whose decimal
has this value. -/
def ReadsAs (text : List Char) (value : ℚ) : Prop :=
  ∀ negative rest, EndsNumeral rest → ∃ n : Numeral,
    readUnsigned? negative (text ++ rest) = some (n, rest) ∧ n.negative = negative ∧
      ¬ (n.fraction.isEmpty = true ∧ n.exponent = none) ∧ n.decimal.value = value

section Layouts

variable {d : Decimal}

theorem digits_isDigit (d : Decimal) : ∀ c ∈ d.digits, c.isDigit = true :=
  isDigit_toDigits d.coefficient

theorem digitsValue_digits (d : Decimal) : digitsValue d.digits = d.coefficient :=
  digitsValue_toDigits d.coefficient

theorem isDigit_zeros (k : Nat) : ∀ c ∈ List.replicate k '0', c.isDigit = true := by
  intro c hc
  rw [List.eq_of_mem_replicate hc]
  decide

theorem readsAs_fraction (whole fraction : List Char) (hwhole : WholeDigits whole)
    (hall : ∀ c ∈ fraction, c.isDigit = true) (hne : fraction ≠ []) :
    ReadsAs (whole ++ '.' :: fraction)
      (digitsValue (whole ++ fraction) * (10 : ℚ) ^ (-(fraction.length : Int))) := by
  intro negative rest hrest
  refine ⟨⟨negative, whole, fraction, none⟩, ?_, rfl, by simp [hne], ?_⟩
  · have hread := readUnsigned?_fraction negative hwhole hall hne hrest
    simpa using hread
  · simp [Numeral.decimal, Decimal.value]

theorem head?_digits_ne_zero (hd : 0 < d.coefficient) : d.digits.head? ≠ some '0' :=
  head?_toDigits_ne_zero hd

theorem wholeDigits_take (hd : 0 < d.coefficient) {k : Nat} (hk : 0 < k) (zeros : Nat) :
    WholeDigits (d.digits.take k ++ List.replicate zeros '0') := by
  have hne : d.digits.take k ≠ [] := by
    have hlength : 0 < d.digits.length := Nat.length_toDigits_pos
    rw [Ne, List.take_eq_nil_iff]
    rintro (h | h)
    · omega
    · simp [h] at hlength
  refine ⟨?_, by simp [hne], ?_⟩
  · intro c hc
    rcases List.mem_append.mp hc with hc | hc
    · exact digits_isDigit d c (List.mem_of_mem_take hc)
    · exact isDigit_zeros zeros c hc
  · intro t h
    have hhead : (d.digits.take k ++ List.replicate zeros '0').head? = some '0' := by rw [h]; rfl
    rw [List.head?_append_of_ne_nil _ hne, List.head?_take, if_neg hk.ne'] at hhead
    exact absurd hhead (head?_digits_ne_zero hd)

theorem readsAs_zeros_first (d : Decimal) (hpoint : d.point ≤ 0) :
    ReadsAs (['0', '.'] ++ (List.replicate (-d.point).toNat '0' ++ d.digits)) d.value := by
  have hlength : d.point = d.digits.length + d.exponent := rfl
  have hall : ∀ c ∈ List.replicate (-d.point).toNat '0' ++ d.digits, c.isDigit = true := by
    intro c hc
    rcases List.mem_append.mp hc with hc | hc
    · exact isDigit_zeros _ c hc
    · exact digits_isDigit d c hc
  have hread := readsAs_fraction ['0'] _ ⟨isDigit_zero, by decide, by simp⟩ hall
    (by simp [Decimal.digits, Nat.toDigits_ne_nil])
  have hvalue : digitsValue (['0'] ++ (List.replicate (-d.point).toNat '0' ++ d.digits)) =
      d.coefficient := by
    rw [show ['0'] ++ (List.replicate (-d.point).toNat '0' ++ d.digits) =
      List.replicate ((-d.point).toNat + 1) '0' ++ d.digits from rfl, digitsValue_zeros,
      digitsValue_digits]
  have hexponent : -(((-d.point).toNat + d.digits.length : Nat) : Int) = d.exponent := by omega
  rw [hvalue, List.length_append, List.length_replicate, hexponent] at hread
  exact hread

theorem readsAs_point_within (hd : 0 < d.coefficient) {k : Nat} (hk : 0 < k)
    (hlt : k < d.digits.length) (hpoint : d.point = k) :
    ReadsAs (d.digits.take k ++ '.' :: d.digits.drop k) d.value := by
  have hlength : d.point = d.digits.length + d.exponent := rfl
  have hwhole := wholeDigits_take hd hk 0
  rw [List.replicate_zero, List.append_nil] at hwhole
  have hfraction : d.digits.drop k ≠ [] := by
    rw [Ne, List.drop_eq_nil_iff]
    omega
  have hread := readsAs_fraction _ _ hwhole
    (fun c hc => digits_isDigit d c (List.mem_of_mem_drop hc)) hfraction
  have hexponent : -((d.digits.length - k : Nat) : Int) = d.exponent := by omega
  rw [List.take_append_drop, digitsValue_digits, List.length_drop, hexponent] at hread
  exact hread

theorem readsAs_zeros_last (hd : 0 < d.coefficient) {k : Nat} (hk : 0 < k)
    (hle : d.digits.length ≤ k) (hpoint : d.point = k) :
    ReadsAs (d.digits ++ List.replicate (k - d.digits.length) '0' ++ ['.', '0']) d.value := by
  have hlength : d.point = d.digits.length + d.exponent := rfl
  have hwhole := wholeDigits_take hd hk (k - d.digits.length)
  rw [List.take_of_length_le hle] at hwhole
  have hread := readsAs_fraction _ ['0'] hwhole isDigit_zero (by decide)
  have hvalue : digitsValue (d.digits ++ List.replicate (k - d.digits.length) '0' ++ ['0']) =
      d.coefficient * 10 ^ (k - d.digits.length + 1) := by
    rw [List.append_assoc, show List.replicate (k - d.digits.length) '0' ++ ['0'] =
      List.replicate (k - d.digits.length + 1) '0' from List.replicate_succ'.symm,
      digitsValue_append_zeros, digitsValue_digits]
  have hexponent : d.value =
      (d.coefficient * 10 ^ (k - d.digits.length + 1) : Nat) * (10 : ℚ) ^ (-1 : Int) := by
    rw [Decimal.value, show d.exponent = ((k - d.digits.length : Nat) : Int) by omega,
      zpow_natCast, pow_succ]
    push_cast
    ring
  rw [hvalue] at hread
  rw [hexponent]
  exact hread

theorem readsAs_positional (hd : 0 < d.coefficient) :
    ReadsAs (positional d.digits d.point).toList d.value := by
  unfold positional
  split
  next hle =>
    simpa using readsAs_zeros_first d hle
  next hpos =>
    obtain ⟨k, hk⟩ := Int.eq_ofNat_of_zero_le (not_le.mp hpos).le
    have hkpos : 0 < k := by omega
    rcases Nat.lt_or_ge k d.digits.length with hlt | hge
    · have hfraction : d.digits.drop k ≠ [] := by
        rw [Ne, List.drop_eq_nil_iff]
        omega
      have hzeros : k - d.digits.length = 0 := Nat.sub_eq_zero_of_le hlt.le
      simpa [hk, hzeros, hfraction] using readsAs_point_within hd hkpos hlt hk
    · have htake : d.digits.take k = d.digits := List.take_of_length_le hge
      have hdrop : d.digits.drop k = [] := List.drop_eq_nil_of_le hge
      simpa [hk, htake, hdrop] using readsAs_zeros_last hd hkpos hge hk

theorem signed_natAbs (e : Int) : signed (decide (e < 0)) e.natAbs = e := by
  unfold signed
  split
  next h =>
    have hneg := of_decide_eq_true h
    omega
  next h =>
    have hpos := of_decide_eq_false (Bool.not_eq_true _ ▸ h)
    omega

theorem literalStyle_exponent (e : Int) : ∃ digits : List Char,
    (literalStyle.exponent e).toList = 'e' :: exponentSign (decide (e < 0)) :: digits ∧
      (∀ c ∈ digits, c.isDigit = true) ∧ digits ≠ [] ∧ digitsValue digits = e.natAbs := by
  refine ⟨List.replicate (2 - (Nat.toDigits 10 e.natAbs).length) '0' ++
    Nat.toDigits 10 e.natAbs, ?_, ?_, ?_, ?_⟩
  · simp [literalStyle, exponentSign]
  · intro c hc
    rcases List.mem_append.mp hc with hc | hc
    · exact isDigit_zeros _ c hc
    · exact isDigit_toDigits _ c hc
  · simp [Nat.toDigits_ne_nil]
  · rw [digitsValue_zeros, digitsValue_toDigits]

theorem readsAs_scientific :
    ReadsAs (literalStyle.text d.digits (d.point - 1)).toList d.value := by
  have hpoint : d.point = d.digits.length + d.exponent := rfl
  obtain ⟨digits, hexponent, hdigits, hne, hvalue⟩ := literalStyle_exponent (d.point - 1)
  obtain ⟨c, t, hct⟩ := List.exists_cons_of_ne_nil (show d.digits ≠ [] from Nat.toDigits_ne_nil)
  have hwhole : WholeDigits [c] := by
    refine ⟨?_, by simp, by simp⟩
    intro c' hc'
    rw [List.mem_singleton.mp hc']
    exact digits_isDigit d c (by simp [hct])
  intro negative rest hrest
  unfold ScientificStyle.text
  rw [String.toList_append, hexponent, hct]
  cases t with
  | nil =>
    refine ⟨⟨negative, [c], [], some (signed (decide (d.point - 1 < 0)) (digitsValue digits))⟩,
      ?_, rfl, by simp, ?_⟩
    · have hread := readUnsigned?_exponent negative (decide (d.point - 1 < 0)) hwhole hdigits hne
        hrest.digit
      simpa [literalStyle] using hread
    · rw [Numeral.decimal, hvalue, signed_natAbs, List.append_nil, ← hct, digitsValue_digits]
      simp [Decimal.value, hpoint, hct]
  | cons c' t =>
    refine ⟨⟨negative, [c], c' :: t, some (signed (decide (d.point - 1 < 0))
      (digitsValue digits))⟩, ?_, rfl, by simp, ?_⟩
    · have hread := readUnsigned?_scientific negative (decide (d.point - 1 < 0)) hwhole
        (fun c'' hc'' => digits_isDigit d c'' (by rw [hct]; exact List.mem_cons_of_mem c hc''))
        (by simp) hdigits hne hrest.digit
      simpa using hread
    · rw [Numeral.decimal, hvalue, signed_natAbs, List.singleton_append, ← hct,
        digitsValue_digits]
      have hlength : d.digits.length = t.length + 2 := by rw [hct]; rfl
      simp only [Option.getD_some, List.length_cons, Decimal.value]
      congr 2
      omega

theorem readsAs_layout (hd : 0 < d.coefficient) :
    ReadsAs (if -4 < d.point ∧ d.point ≤ 16 then positional d.digits d.point
      else literalStyle.text d.digits (d.point - 1)).toList d.value := by
  split
  next => exact readsAs_positional hd
  next => exact readsAs_scientific

end Layouts

/-- The text of a finite literal without its sign is read as a decimal that is rounded to it. -/
theorem readsAs_finiteLiteral {m : Nat} {q : Int} (fits : Format.double.Fits m q) :
    ∃ value : ℚ, ReadsAs (finiteLiteral false m q).toList value ∧
      ∀ d : Decimal, d.value = value → ∀ negative,
        d.round .double negative = .finite negative m q fits := by
  unfold finiteLiteral
  dsimp only [withSign, Bool.false_eq_true, if_false]
  rcases Nat.eq_zero_or_pos m with rfl | hm
  · refine ⟨0, ?_, ?_⟩
    · have hread := readsAs_fraction ['0'] ['0'] ⟨isDigit_zero, by decide, by simp⟩ isDigit_zero
        (by decide)
      simpa [digitsValue] using hread
    · exact fun d hd negative => Decimal.round_of_value_zero hd negative fits
  · rw [if_neg hm.ne']
    have hcoefficient := Decimal.shortest_coefficient_pos Format.double_usual hm fits
    refine ⟨(Decimal.shortest .double m q).value, readsAs_layout hcoefficient, ?_⟩
    · intro d hd negative
      rw [Decimal.round_congr hd, Decimal.round_shortest Format.double_usual negative hm fits]

end ProgramTrees
