import ProgramTrees.Evaluation
import ProgramTrees.Proofs.Lexing
import ProgramTrees.Proofs.RoundingOrder

namespace ProgramTrees

variable {f g : Format} {negative : Bool} {r s : Ratio}

namespace Format

theorem HoldsIntegers.round_ext (holds : f.HoldsIntegers)
    (h : (f.round negative r).magnitude = (f.round negative s).magnitude) :
    f.round negative r = f.round negative s := by
  rcases f.round_cases negative s with ⟨m, q, fits, hs⟩ | hs
  · rw [hs] at h ⊢
    exact holds.round_eq_of_magnitude fits h
  · rcases f.round_cases negative r with ⟨m, q, fits, hr⟩ | hr
    · rw [hr, hs] at h
      exact absurd h WithTop.coe_ne_top
    · rw [hr, hs]

theorem HoldsIntegers.round_lt_iff (holds : f.HoldsIntegers) (hr : 0 < r.den) (hs : 0 < s.den) :
    (f.round negative r).magnitude < (f.round negative s).magnitude ↔
      ∃ m q, f.Fits m q ∧ (r.value < halfway m q ∨ r.value = halfway m q ∧ m % 2 = 0) ∧
        ¬ (s.value < halfway m q ∨ s.value = halfway m q ∧ m % 2 = 0) := by
  constructor
  · intro hlt
    rcases f.round_cases negative r with ⟨m, q, fits, hround⟩ | hround
    · have hself : (f.round negative r).magnitude ≤ ((m * 2 ^ q : ℚ) : WithTop ℚ) := by
        rw [hround, Binary.magnitude]
      refine ⟨m, q, fits, (holds.round_le_iff fits hr).mp hself, ?_⟩
      rw [hround, Binary.magnitude] at hlt
      exact mt (holds.round_le_iff fits hs).mpr (not_le.mpr hlt)
    · rw [hround] at hlt
      exact absurd hlt not_top_lt
  · rintro ⟨m, q, fits, hbelow, habove⟩
    have hle : (f.round negative r).magnitude ≤ ((m * 2 ^ q : ℚ) : WithTop ℚ) :=
      (holds.round_le_iff fits hr).mpr hbelow
    exact hle.trans_lt (not_le.mp (mt (holds.round_le_iff fits hs).mp habove))

/-- The ties of one format are numbers of another. -/
def TiesFit (f g : Format) : Prop :=
  ∀ m q, f.Fits m q →
    2 * m + 1 < Nat.pow 2 g.precision ∧ g.minExponent ≤ q - 1 ∧ q - 1 ≤ g.maxExponent

theorem single_ties_fit_double : TiesFit .single .double := by
  intro m q fits
  obtain ⟨hm, hmin, hmax, -⟩ := fits
  change m < 2 ^ 24 at hm
  change -149 ≤ q at hmin
  change q ≤ 104 at hmax
  refine ⟨?_, ?_, ?_⟩
  · change 2 * m + 1 < 2 ^ 53
    omega
  · change -1074 ≤ q - 1
    omega
  · change q - 1 ≤ 971
    omega

section Twice

variable (holds : g.HoldsIntegers) (ties : TiesFit f g) (hr : 0 < r.den)
  (hround : (g.round negative r).magnitude = (s.value : WithTop ℚ))
include holds ties hr hround

/-- Rounding to the wider format carries no value over a tie of the narrower one. -/
theorem tie_kept {m : Nat} {q : Int} (fits : f.Fits m q) :
    (r.value ≤ halfway m q → s.value ≤ halfway m q) ∧
      (halfway m q ≤ r.value → halfway m q ≤ s.value) := by
  obtain ⟨hm, hmin, hmax⟩ := ties m q fits
  have hden : 0 < (Ratio.scale 2 (2 * m + 1) (q - 1)).den :=
    Ratio.scale_den_pos (by norm_num) _ _
  have hvalue : (Ratio.scale 2 (2 * m + 1) (q - 1)).value = (2 * m + 1 : Nat) * 2 ^ (q - 1) :=
    Ratio.value_scale_two _ _
  have htie : (Ratio.scale 2 (2 * m + 1) (q - 1)).value = halfway m q := by
    rw [hvalue, halfway, zpow_sub_one₀ (by norm_num)]
    push_cast
    ring
  have hexact : (g.round negative (.scale 2 (2 * m + 1) (q - 1))).magnitude =
      ((halfway m q : ℚ) : WithTop ℚ) := by
    rw [holds.magnitude_exact hden hm hmin hmax hvalue, htie]
  constructor
  · intro hle
    have hmono : (g.round negative r).magnitude ≤
        (g.round negative (.scale 2 (2 * m + 1) (q - 1))).magnitude :=
      holds.round_mono hr hden (hle.trans_eq htie.symm)
    rw [hround, hexact] at hmono
    exact WithTop.coe_le_coe.mp hmono
  · intro hle
    have hmono : (g.round negative (.scale 2 (2 * m + 1) (q - 1))).magnitude ≤
        (g.round negative r).magnitude :=
      holds.round_mono hden hr (htie.trans_le hle)
    rw [hround, hexact] at hmono
    exact WithTop.coe_le_coe.mp hmono

/-- A value that is rounded to the wider format first ends at the same number of the narrower one,
unless it is moved onto a tie from the side to which the tie does not go. -/
theorem round_twice_ne_iff (narrow : f.HoldsIntegers) (hs : 0 < s.den) :
    f.round negative r ≠ f.round negative s ↔
      ∃ m q, f.Fits m q ∧ s.value = halfway m q ∧
        (m % 2 = 1 ∧ r.value < s.value ∨ m % 2 = 0 ∧ s.value < r.value) := by
  have hne : f.round negative r ≠ f.round negative s ↔
      (f.round negative r).magnitude < (f.round negative s).magnitude ∨
        (f.round negative s).magnitude < (f.round negative r).magnitude := by
    rw [← ne_iff_lt_or_gt]
    exact not_congr ⟨fun h => congrArg Binary.magnitude h, narrow.round_ext⟩
  rw [hne, narrow.round_lt_iff hr hs, narrow.round_lt_iff hs hr]
  constructor
  · rintro (⟨m, q, fits, hbelow, habove⟩ | ⟨m, q, fits, hbelow, habove⟩)
    · have hle : r.value ≤ halfway m q := hbelow.elim le_of_lt fun h => h.1.le
      have hkept := (tie_kept holds ties hr hround fits).1 hle
      have heq : s.value = halfway m q := hkept.antisymm (not_lt.mp fun h => habove (.inl h))
      have hodd : m % 2 = 1 := by
        have hnot : ¬ m % 2 = 0 := fun h => habove (.inr ⟨heq, h⟩)
        omega
      refine ⟨m, q, fits, heq, .inl ⟨hodd, ?_⟩⟩
      rw [heq]
      exact hbelow.resolve_right (by omega)
    · have hle : halfway m q ≤ r.value := not_lt.mp fun h => habove (.inl h)
      have hkept := (tie_kept holds ties hr hround fits).2 hle
      have hsle : s.value ≤ halfway m q := hbelow.elim le_of_lt fun h => h.1.le
      have heq : s.value = halfway m q := hsle.antisymm hkept
      have heven : m % 2 = 0 := (hbelow.resolve_left (by rw [heq]; exact lt_irrefl _)).2
      refine ⟨m, q, fits, heq, .inr ⟨heven, ?_⟩⟩
      rw [heq]
      exact lt_of_le_of_ne hle fun h => habove (.inr ⟨h.symm, heven⟩)
  · rintro ⟨m, q, fits, heq, ⟨hodd, hlt⟩ | ⟨heven, hlt⟩⟩
    · refine .inl ⟨m, q, fits, .inl (hlt.trans_eq heq), ?_⟩
      rintro (h | ⟨-, h⟩)
      · exact absurd heq h.ne
      · omega
    · refine .inr ⟨m, q, fits, .inr ⟨heq, heven⟩, ?_⟩
      rintro (h | ⟨h, -⟩)
      · exact absurd (heq.symm.trans_lt hlt) h.not_gt
      · exact absurd (heq.symm.trans_lt hlt) h.not_gt

end Twice

end Format

section Literals

variable {τ : Type} {m : Nat} {q : Int}

theorem eval_float_toValue {x : Double} {value : Value}
    (h : Number.toValue .float (.double x) = .ok value) (types : TypeMap) (budget number : Nat)
    (machine : Machine) :
    (Node.float number x).eval types budget machine =
      .ok () (machine.store (.node number) (some value)) := by
  cases h
  rw [Node.eval]
  rfl

theorem readNumeral?_literal (style : SourceStyle) (depth : Nat) (tag : τ) (negative : Bool)
    (fits : Format.double.Fits m q) :
    ∃ n : Numeral, readNumeral?
        ((Node.float tag (.finite negative m q fits)).source style depth).toList =
          some (n, ['f']) ∧
      n.negative = negative ∧ n.decimal.round .double negative = .finite negative m q fits := by
  obtain ⟨value, hreads, hround⟩ := readsAs_finiteLiteral fits
  obtain ⟨n, hread, hnegative, -, hvalue⟩ := hreads negative ['f'] (endsNumeral_fraction [])
  have hsigned := readNumeral?_signed hread
  have htext : ((Node.float tag (.finite negative m q fits)).source style depth).toList =
      if negative then '-' :: ((finiteLiteral false m q).toList ++ ['f'])
      else (finiteLiteral false m q).toList ++ ['f'] := by
    rw [Node.source, Binary.literalText, String.toList_append, finiteLiteral_eq]
    split <;> rfl
  rw [htext]
  exact ⟨n, hsigned, hnegative, hround n.decimal hvalue negative⟩

/-- A printed literal denotes, as a single, the value that its evaluation stores, unless its double
lies halfway between two singles and its decimal on the side of the odd one. -/
theorem literal_denotes_stored_iff (style : SourceStyle) (depth : Nat) (tag : τ) (negative : Bool)
    (m : Nat) (q : Int) (fits : Format.double.Fits m q) :
    ∃ (n : Numeral) (value : Value), readNumeral?
        ((Node.float tag (.finite negative m q fits)).source style depth).toList =
          some (n, ['f']) ∧
      n.decimal.round .double n.negative = .finite negative m q fits ∧
      Number.toValue .float (.double (.finite negative m q fits)) = .ok value ∧
      (∀ types budget number machine,
        (Node.float number (.finite negative m q fits)).eval types budget machine =
          .ok () (machine.store (.node number) (some value))) ∧
      (value = .float (n.decimal.round .single n.negative) ↔
        ¬ ∃ k place, Format.single.Fits k place ∧ (m * 2 ^ q : ℚ) = halfway k place ∧
          (k % 2 = 1 ∧ n.decimal.value < m * 2 ^ q ∨
            k % 2 = 0 ∧ m * 2 ^ q < n.decimal.value)) := by
  obtain ⟨n, hread, rfl, hdouble⟩ := readNumeral?_literal style depth tag negative fits
  refine ⟨n, .float ((Binary.finite n.negative m q fits).convert .single), hread, hdouble, rfl,
    eval_float_toValue rfl, ?_⟩
  have hden : 0 < (Ratio.scale 2 m q).den := Ratio.scale_den_pos (by norm_num) m q
  have hvalue : (Ratio.scale 2 m q).value = m * 2 ^ q := Ratio.value_scale_two m q
  have hround : (Format.double.round n.negative
      (.scale 10 n.decimal.coefficient n.decimal.exponent)).magnitude =
      ((Ratio.scale 2 m q).value : WithTop ℚ) := by
    rw [hvalue, ← Decimal.round_eq Format.double_holdsIntegers, hdouble,
      Binary.magnitude]
  have htwice := Format.round_twice_ne_iff Format.double_holdsIntegers
    Format.single_ties_fit_double n.decimal.scale_den_pos hround Format.single_holdsIntegers hden
  rw [Value.float.injEq, Binary.convert, Decimal.round_eq Format.single_holdsIntegers, eq_comm,
    ← not_iff_not, not_not]
  rw [hvalue, Decimal.value_scale] at htwice
  exact htwice

theorem half_literal_denotes_stored :
    Format.double.Fits (2 ^ 52) (-53) ∧ ∃ n, readNumeral? "0.5f".toList = some (n, ['f']) ∧
      ∀ types budget number machine,
        (Node.float number (.finite false (2 ^ 52) (-53) (by decide))).eval types budget machine =
          .ok () (machine.store (.node number)
            (some (.float (n.decimal.round .single n.negative)))) := by
  obtain ⟨n, value, hread, -, -, hstored, hiff⟩ :=
    literal_denotes_stored_iff {} 0 () false (2 ^ 52) (-53) (by decide)
  have htext : (Node.float () (.finite false (2 ^ 52) (-53) (by decide))).source {} 0 = "0.5f" := by
    decide +kernel
  have hhalf : readNumeral? "0.5f".toList = some (⟨false, ['0'], ['5'], none⟩, ['f']) := rfl
  rw [htext] at hread
  obtain rfl : (⟨false, ['0'], ['5'], none⟩ : Numeral) = n :=
    congrArg Prod.fst (Option.some.inj (hhalf.symm.trans hread))
  refine ⟨by decide, _, hhalf, ?_⟩
  suffices hvalue : value = .float _ by
    rw [← hvalue]
    exact hstored
  rw [hiff]
  have hvalue : (Numeral.mk false ['0'] ['5'] none).decimal.value =
      ((2 ^ 52 : Nat) * 2 ^ (-53 : Int) : ℚ) := by
    have hdecimal : (Numeral.mk false ['0'] ['5'] none).decimal = ⟨5, -1⟩ := rfl
    rw [hdecimal, Decimal.value]
    norm_num
  rintro ⟨k, place, -, -, ⟨-, h⟩ | ⟨-, h⟩⟩
  · exact absurd hvalue h.ne
  · exact absurd hvalue h.ne'

/-- The double halfway between one and the next single. -/
def aboveOne : Double :=
  .finite false (2 ^ 52 + 2 ^ 28) (-52) (by decide)

/-- Its decimal lies above it, so that the text denotes the next single and not one. -/
theorem aboveOne_denotes_other :
    (Node.float () aboveOne).source {} 0 = "1.0000000596046448f" ∧
      ∃ n, readNumeral? "1.0000000596046448f".toList = some (n, ['f']) ∧
        n.decimal.round .single n.negative = .finite false (2 ^ 23 + 1) (-23) (by decide) ∧
        Number.toValue .float (.double aboveOne) =
          .ok (.float (.finite false (2 ^ 23) (-23) (by decide))) ∧
        (∀ types budget number machine,
          (Node.float number aboveOne).eval types budget machine =
            .ok () (machine.store (.node number)
              (some (.float (.finite false (2 ^ 23) (-23) (by decide)))))) ∧
        Number.toValue .float (.double aboveOne) ≠
          .ok (.float (n.decimal.round .single n.negative)) := by
  have hdenoted : (Decimal.mk 10000000596046448 (-16)).round .single false =
      .finite false (2 ^ 23 + 1) (-23) (by decide) := by
    decide +kernel
  have hstored : Number.toValue .float (.double aboveOne) =
      .ok (.float (.finite false (2 ^ 23) (-23) (by decide))) := by
    have hconvert : aboveOne.convert .single = .finite false (2 ^ 23) (-23) (by decide) := by
      decide +kernel
    rw [← hconvert]
    rfl
  let n : Numeral := ⟨false, ['1'], "0000000596046448".toList, none⟩
  have hread : readNumeral? "1.0000000596046448f".toList = some (n, ['f']) := by rfl
  have hround : n.decimal.round .single n.negative =
      .finite false (2 ^ 23 + 1) (-23) (by decide) := by
    have hdecimal : n.decimal = ⟨10000000596046448, -16⟩ := by decide +kernel
    rw [hdecimal, hdenoted]
  refine ⟨by decide +kernel, n, hread, hround, hstored, eval_float_toValue hstored, ?_⟩
  rw [hstored, hround]
  intro h
  have hsignificand := (Binary.finite.inj (Value.float.inj (Except.ok.inj h))).2.1
  omega

end Literals

end ProgramTrees
