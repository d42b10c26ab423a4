import ProgramTrees.Proofs.FewestDigits
import ProgramTrees.Proofs.NumberCharacters

namespace ProgramTrees

section Layout

variable {rest : List Char} {d : Decimal}

theorem exponentPart?_int (e : Int) (hrest : NoDigitFirst rest) :
    exponentPart? ('E' :: ((toString e).toList ++ rest)) = some (e, rest) := by
  have htake : takeDigits? (Nat.toDigits 10 e.natAbs ++ rest) =
      some (Nat.toDigits 10 e.natAbs, rest) :=
    takeDigits?_append (isDigit_toDigits _) Nat.toDigits_ne_nil hrest
  change exponentValue? ((toString e).toList ++ rest) = some (e, rest)
  rw [toList_toString]
  split
  next hneg =>
    have hneg := of_decide_eq_true hneg
    have hvalue : -((e.natAbs : Nat) : Int) = e := by omega
    change (takeDigits? (Nat.toDigits 10 e.natAbs ++ rest)).map _ = _
    rw [htake, Option.map_some]
    dsimp only
    rw [digitsValue_toDigits, hvalue]
  next hpos =>
    have hpos := of_decide_eq_false (Bool.not_eq_true _ ▸ hpos)
    have hvalue : ((e.natAbs : Nat) : Int) = e := by omega
    obtain ⟨c, t, hct⟩ := List.exists_cons_of_ne_nil
      (show Nat.toDigits 10 e.natAbs ≠ [] from Nat.toDigits_ne_nil)
    have hdigit : c.isDigit = true := isDigit_toDigits e.natAbs c (by simp [hct])
    have hfirst (sign : Char) (hsign : sign.isDigit = false) :
        ∀ t', Nat.toDigits 10 e.natAbs ++ rest ≠ sign :: t' := by
      intro t' heq
      rw [hct] at heq
      rw [(List.cons.inj heq).1, hsign] at hdigit
      exact nomatch hdigit
    rw [exponentValue?, htake, Option.map_some]
    · dsimp only
      rw [digitsValue_toDigits, hvalue]
    · exact hfirst '-' (by decide)
    · exact hfirst '+' (by decide)

theorem readsAs_mantissa {c : Char} {fraction : List Char} (hc : c.isDigit = true)
    (hall : ∀ c ∈ fraction, c.isDigit = true) (hne : fraction ≠ []) (e : Int) :
    ReadsAs (c :: '.' :: (fraction ++ 'E' :: (toString e).toList))
      (digitsValue (c :: fraction) * (10 : ℚ) ^ (e - (fraction.length : Int))) := by
  intro negative rest hrest
  have hwhole : WholeDigits [c] := by
    refine ⟨List.forall_mem_singleton.mpr hc, by simp, ?_⟩
    intro t heq
    exact (List.cons.inj heq).2.symm
  have hread := readUnsigned?_fraction_exponent negative hwhole hall hne
    (noDigitFirst_cons (show 'E'.isDigit = false by decide) _) (exponentPart?_int e hrest.digit)
  refine ⟨⟨negative, [c], fraction, some e⟩, ?_, rfl, by simp, ?_⟩
  · simpa using hread
  · simp [Numeral.decimal, Decimal.value]

theorem readsAs_valueStyle (d : Decimal) :
    ReadsAs (valueStyle.text d.digits (d.point - 1)).toList d.value := by
  have hpoint : d.point = d.digits.length + d.exponent := rfl
  obtain ⟨c, t, hct⟩ := List.exists_cons_of_ne_nil (show d.digits ≠ [] from Nat.toDigits_ne_nil)
  have hc : c.isDigit = true := digits_isDigit d c (by simp [hct])
  have hexponent : (valueStyle.exponent (d.point - 1)).toList =
      'E' :: (toString (d.point - 1)).toList := by
    rw [valueStyle, String.toList_append]
    rfl
  unfold ScientificStyle.text
  rw [String.toList_append, String.toList_ofList, hexponent]
  cases t with
  | nil =>
    have hread := readsAs_mantissa hc isDigit_zero (by simp) (d.point - 1)
    have hvalue : d.value = digitsValue [c, '0'] * (10 : ℚ) ^ (d.point - 1 - 1) := by
      have hdigits : digitsValue [c, '0'] = d.coefficient * 10 := by
        have htenfold := digitsValue_append_zeros [c] 1
        rw [← hct, digitsValue_digits] at htenfold
        rw [hct] at htenfold
        exact htenfold
      have hlength : d.digits.length = 1 := by rw [hct]; rfl
      rw [hdigits, Decimal.value, hpoint, hlength]
      push_cast
      rw [show (1 : Int) + d.exponent - 1 - 1 = d.exponent - 1 by ring,
        zpow_sub_one₀ (by norm_num)]
      ring
    rw [hct, hvalue]
    exact hread
  | cons c' t =>
    have hall : ∀ c'' ∈ c' :: t, c''.isDigit = true := by
      intro c'' hc''
      exact digits_isDigit d c'' (by rw [hct]; exact List.mem_cons_of_mem c hc'')
    have hread := readsAs_mantissa hc hall (by simp) (d.point - 1)
    have hvalue : d.value =
        digitsValue (c :: c' :: t) * (10 : ℚ) ^ (d.point - 1 - ((c' :: t).length : Int)) := by
      have hlength : d.digits.length = (c' :: t).length + 1 := by rw [hct]; rfl
      rw [← hct, digitsValue_digits, Decimal.value]
      congr 2
      omega
    rw [hct, hvalue]
    exact hread

end Layout

theorem endsNumeral_nil : EndsNumeral [] :=
  ⟨nofun, nofun, nofun, nofun⟩

/-- The number that a text is, if the whole text is one. -/
def wholeNumeral? (text : String) : Option Numeral :=
  match readNumeral? text.toList with
  | some (n, []) => some n
  | _ => none

theorem wholeNumeral?_signed {text : String} {unsigned : List Char} {negative : Bool} {n : Numeral}
    (htext : text.toList = if negative then '-' :: unsigned else unsigned)
    (h : readUnsigned? negative unsigned = some (n, [])) : wholeNumeral? text = some n := by
  rw [wholeNumeral?, htext, readNumeral?_signed h]

section Values

variable {negative : Bool} {m : Nat} {q : Int}

theorem valueText_finite (negative : Bool) (m : Nat) (q : Int) (fits : Format.single.Fits m q) :
    (Binary.finite negative m q fits).valueText.toList =
      if negative then '-' :: (Binary.finite false m q fits).valueText.toList
      else (Binary.finite false m q fits).valueText.toList := by
  cases negative with
  | false => rfl
  | true => simp [Binary.valueText, withSign]

/-- The text of a finite value without its sign is read as its shortest decimal. -/
theorem readsAs_finiteValue (fits : Format.single.Fits m q) :
    ReadsAs (Binary.finite false m q fits).valueText.toList
      (if m = 0 then 0 else (Decimal.shortest .single m q).value) := by
  have htext : (Binary.finite false m q fits).valueText =
      if m = 0 then "0.0"
      else if isPlainMagnitude m q then
        positional (Decimal.shortest .single m q).digits (Decimal.shortest .single m q).point
      else
        valueStyle.text (Decimal.shortest .single m q).digits
          ((Decimal.shortest .single m q).point - 1) := rfl
  rw [htext]
  split
  next =>
    have hread := readsAs_fraction ['0'] ['0'] ⟨isDigit_zero, by decide, by simp⟩ isDigit_zero
      (by decide)
    simpa [digitsValue] using hread
  next hm =>
    have hcoefficient := Decimal.shortest_coefficient_pos Format.single_holdsIntegers.usual
      (Nat.pos_of_ne_zero hm) fits
    split
    next => exact readsAs_positional hcoefficient
    next => exact readsAs_valueStyle _

theorem wholeNumeral?_finiteValue (fits : Format.single.Fits m q) :
    ∃ n, wholeNumeral? (Binary.finite negative m q fits).valueText = some n ∧
      n.negative = negative ∧ ¬ (n.fraction.isEmpty = true ∧ n.exponent = none) ∧
      n.decimal.value = if m = 0 then 0 else (Decimal.shortest .single m q).value := by
  obtain ⟨n, hread, hnegative, hfraction, hvalue⟩ := readsAs_finiteValue fits negative []
    endsNumeral_nil
  rw [List.append_nil] at hread
  exact ⟨n, wholeNumeral?_signed (valueText_finite negative m q fits) hread, hnegative, hfraction,
    hvalue⟩

theorem round_of_shortest_value {d : Decimal} (fits : Format.single.Fits m q)
    (h : d.value = if m = 0 then 0 else (Decimal.shortest .single m q).value) (negative : Bool) :
    d.round .single negative = .finite negative m q fits := by
  split at h
  next hm =>
    subst hm
    exact Decimal.round_of_value_zero h negative fits
  next hm =>
    rw [Decimal.round_congr h, Decimal.round_shortest Format.single_holdsIntegers.usual negative
      (Nat.pos_of_ne_zero hm) fits]

end Values

section Notation

variable {m : Nat} {q : Int}

/-- Plain notation has nothing but digits, a sign and a point. -/
def IsPlain (text : String) : Prop :=
  ∀ c ∈ text.toList, c.isDigit = true ∨ c ∈ ['-', '.']

/-- The single nearest to the double nearest to a thousandth. -/
def thousandth : Single :=
  ((Decimal.mk 1 (-3)).round .double false).convert .single

theorem thousandth_magnitude :
    thousandth.magnitude = ((8589935 * 2 ^ (-33 : Int) : ℚ) : WithTop ℚ) := by
  have hfinite : ∃ fits, thousandth = .finite false 8589935 (-33) fits :=
    ⟨by decide, by decide +kernel⟩
  obtain ⟨fits, hfinite⟩ := hfinite
  rw [hfinite, Binary.magnitude]
  norm_num

theorem isPlainMagnitude_iff : isPlainMagnitude m q = true ↔ m = 0 ∨
    thousandth.magnitude ≤ ((m * 2 ^ q : ℚ) : WithTop ℚ) ∧ (m * 2 ^ q : ℚ) < 10 ^ 7 := by
  have hlower : (Ratio.scale 2 m q).lt (.scale 2 8589935 (-33)) = true ↔
      (m * 2 ^ q : ℚ) < 8589935 * 2 ^ (-33 : Int) := by
    rw [Ratio.lt_iff (Ratio.scale_den_pos (by norm_num) _ _)
      (Ratio.scale_den_pos (by norm_num) _ _), Ratio.value_scale_two, Ratio.value_scale_two]
    norm_num
  have hupper : (Ratio.scale 2 m q).lt ⟨10000000, 1⟩ = true ↔ (m * 2 ^ q : ℚ) < 10 ^ 7 := by
    rw [Ratio.lt_iff (Ratio.scale_den_pos (by norm_num) _ _) (by norm_num),
      Ratio.value_scale_two, Ratio.value]
    norm_num
  rw [thousandth_magnitude, WithTop.coe_le_coe]
  simp only [isPlainMagnitude, Bool.or_eq_true, beq_iff_eq, Bool.and_eq_true, Bool.not_eq_true',
    ← Bool.not_eq_true, hlower, hupper, not_lt]

theorem isPlain_withSign {text : String} {negative : Bool} :
    IsPlain (withSign negative text) ↔ IsPlain text := by
  cases negative with
  | false => rfl
  | true =>
    unfold IsPlain
    rw [withSign, if_pos rfl, String.toList_append, List.forall_mem_append]
    exact and_iff_right (List.forall_mem_singleton.mpr (.inr (by decide)))

theorem isPlain_positional (d : Decimal) : IsPlain (positional d.digits d.point) :=
  forall_mem_positional (fun c hc => .inl (digits_isDigit d c hc)) (.inl (by decide))
    (.inr (by decide)) d.point

theorem not_isPlain_valueStyle (digits : List Char) (exponent : Int) :
    ¬ IsPlain (valueStyle.text digits exponent) := by
  intro h
  have hmem : 'E' ∈ (valueStyle.text digits exponent).toList := by
    unfold ScientificStyle.text valueStyle
    rw [String.toList_append, String.toList_append]
    exact List.mem_append_right _ (List.mem_append_left _ (by decide))
  rcases h 'E' hmem with h | h
  · exact absurd h (by decide)
  · exact absurd h (by decide)

theorem isPlain_finiteValue (negative : Bool) (fits : Format.single.Fits m q) :
    IsPlain (Binary.finite negative m q fits).valueText ↔ m = 0 ∨
      thousandth.magnitude ≤ ((m * 2 ^ q : ℚ) : WithTop ℚ) ∧ (m * 2 ^ q : ℚ) < 10 ^ 7 := by
  rw [Binary.valueText, isPlain_withSign, ← isPlainMagnitude_iff]
  split
  next hm =>
    refine iff_of_true ?_ (by rw [isPlainMagnitude_iff]; exact .inl hm)
    have hzero : ('0'.isDigit = true) := by decide
    unfold IsPlain
    exact List.forall_mem_cons.mpr ⟨.inl hzero, List.forall_mem_cons.mpr
      ⟨.inr (by decide), List.forall_mem_singleton.mpr (.inl hzero)⟩⟩
  next =>
    split
    next h => exact iff_of_true (isPlain_positional _) h
    next h => exact iff_of_false (not_isPlain_valueStyle _ _) h

end Notation

/-- The value that a numeral is printed for: without fraction and exponent it is an integer. -/
def Numeral.toPrinted (n : Numeral) : Value :=
  if n.fraction.isEmpty ∧ n.exponent = none then
    .int (Int32.ofInt (signed n.negative (digitsValue n.whole)))
  else .float (n.decimal.round .single n.negative)

/-- The value that a text is printed for; besides the numbers there are three words. -/
def Value.ofText (text : String) : Option Value :=
  match wholeNumeral? text with
  | some n => some n.toPrinted
  | none =>
    if text = "NaN" then some (.float .nan)
    else if text = "Infinity" then some (.float (.infinite false))
    else if text = "-Infinity" then some (.float (.infinite true))
    else none

theorem wholeNumeral?_int (n : Int32) : ∃ numeral, wholeNumeral? (toString n.toInt) = some numeral ∧
    numeral.toPrinted = .int n := by
  have hread := readUnsigned?_integer (decide (n.toInt < 0)) (wholeDigits_toDigits n.toInt.natAbs)
    endsNumeral_nil
  rw [List.append_nil] at hread
  refine ⟨_, wholeNumeral?_signed (toList_toString n.toInt) hread, ?_⟩
  rw [Numeral.toPrinted, if_pos ⟨rfl, rfl⟩]
  dsimp only
  rw [digitsValue_toDigits, signed_natAbs, Int32.ofInt_toInt]

theorem Value.ofText_text (v : Option Value) : Value.ofText (Value.text v) = v := by
  match v with
  | none => rfl
  | some (.int n) =>
    obtain ⟨numeral, hread, hvalue⟩ := wholeNumeral?_int n
    rw [Value.text, Value.ofText, hread]
    dsimp only
    rw [hvalue]
  | some (.float .nan) => rfl
  | some (.float (.infinite negative)) => cases negative <;> rfl
  | some (.float (.finite negative m q fits)) =>
    obtain ⟨n, hread, hnegative, hfraction, hvalue⟩ := wholeNumeral?_finiteValue fits
    rw [Value.text, Value.ofText, hread]
    dsimp only
    rw [Numeral.toPrinted, if_neg hfraction, round_of_shortest_value fits hvalue, hnegative]

/-- The decimal that a value is printed as has the fewest significant digits of all that are rounded
to the value, and of those with as few it is the nearest. -/
theorem finiteValue_fewest {negative : Bool} {m : Nat} {q : Int} {d e : Decimal}
    (fits : Format.single.Fits m q) (hm : 0 < m)
    (hd : d.value = (Decimal.shortest .single m q).value)
    (he : e.round .single negative = .finite negative m q fits) :
    d.trim.digits.length ≤ e.trim.digits.length ∧
      (e.trim.digits.length ≤ d.trim.digits.length →
        |d.value - m * 2 ^ q| ≤ |e.value - m * 2 ^ q|) := by
  have hcoefficient := Decimal.shortest_coefficient_pos Format.single_holdsIntegers.usual hm fits
  have htrim : d.trim.digits.length ≤ (Decimal.shortest .single m q).digits.length := by
    rw [← Decimal.trim_congr hcoefficient.ne' hd.symm]
    exact Decimal.length_trim_le _
  have he' : e.trim.round .single negative = .finite negative m q fits := by
    rw [Decimal.round_congr (Decimal.value_trim e), he]
  obtain ⟨hfewest, hnearest⟩ :=
    Decimal.shortest_spec Format.single_holdsIntegers fits hm he'
  refine ⟨htrim.trans hfewest, ?_⟩
  intro hle
  rw [hd, ← Decimal.value_trim e]
  exact hnearest (hle.trans htrim)

/-- A finite value is printed as a decimal that is rounded to it, sign included, in plain notation
exactly from the single nearest to a thousandth up to ten million; no decimal with fewer significant
digits is rounded to the value. No two values are printed alike, a missing one among them. -/
theorem printed_values_identify :
    (∀ (negative : Bool) (m : Nat) (q : Int) (fits : Format.single.Fits m q),
      let x : Single := .finite negative m q fits
      let text := Value.text (some (.float x))
      (∃ n, wholeNumeral? text = some n ∧ n.decimal.round .single n.negative = x ∧
        (0 < m → ∀ d : Decimal, d.round .single negative = x →
          n.decimal.trim.digits.length ≤ d.trim.digits.length ∧
            (d.trim.digits.length ≤ n.decimal.trim.digits.length →
              |n.decimal.value - m * 2 ^ q| ≤ |d.value - m * 2 ^ q|))) ∧
        (IsPlain text ↔ m = 0 ∨
          thousandth.magnitude ≤ ((m * 2 ^ q : ℚ) : WithTop ℚ) ∧ (m * 2 ^ q : ℚ) < 10 ^ 7)) ∧
      Function.Injective Value.text := by
  constructor
  · intro negative m q fits
    refine ⟨?_, isPlain_finiteValue negative fits⟩
    obtain ⟨n, hread, hnegative, -, hvalue⟩ := wholeNumeral?_finiteValue fits
    refine ⟨n, hread, hnegative ▸ round_of_shortest_value fits hvalue negative, ?_⟩
    intro hm d hd
    rw [if_neg hm.ne'] at hvalue
    exact finiteValue_fewest fits hm hvalue hd
  · exact Function.LeftInverse.injective Value.ofText_text

theorem least_value_identified :
    Format.single.Fits 1 (-149) ∧ 0 < 1 ∧
      ∃ n, wholeNumeral? (Value.text (some (.float (.finite true 1 (-149) (by decide))))) = some n ∧
        ∀ d : Decimal, d.round .single true = .finite true 1 (-149) (by decide) →
          n.decimal.trim.digits.length ≤ d.trim.digits.length := by
  obtain ⟨⟨n, hread, -, hfewest⟩, -⟩ := printed_values_identify.1 true 1 (-149) (by decide)
  exact ⟨by decide, by decide, n, hread, fun d hd => (hfewest (by decide) d hd).1⟩

end ProgramTrees
