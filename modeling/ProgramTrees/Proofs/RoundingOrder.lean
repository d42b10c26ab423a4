import Mathlib.Order.WithBot
import ProgramTrees.Proofs.IntegerRounding
import ProgramTrees.Proofs.ShortestDecimal

namespace ProgramTrees

variable {f : Format}

/-- The absolute value of a finite number; what is not finite is above all of them. -/
def Binary.magnitude : Binary f → WithTop ℚ
  | .finite _ m q _ => ((m * 2 ^ q : ℚ) : WithTop ℚ)
  | _ => ⊤

theorem Binary.magnitude_ofParts (negative : Bool) (m : Nat) (q : Int) :
    (Binary.ofParts f negative m q).magnitude =
      if f.Fits m q then ((m * 2 ^ q : ℚ) : WithTop ℚ) else ⊤ := by
  unfold ofParts
  split
  next => rfl
  next => rfl

theorem Binary.magnitude_nonneg (x : Binary f) : 0 ≤ x.magnitude := by
  unfold magnitude
  split
  next m q _ =>
    have hvalue : (0 : ℚ) ≤ m * 2 ^ q := by positivity
    exact_mod_cast hvalue
  next => exact le_top

/-- The point halfway to the next greater number of a format. -/
def halfway (m : Nat) (q : Int) : ℚ := (m + 1 / 2) * 2 ^ q

namespace Ratio

variable {r : Ratio} {n : Nat}

theorem nearest_half (hden : 0 < r.den) (h : r.value = n + 1 / 2) : r.nearest = n + n % 2 := by
  have hhalf : r.nearest = nearest ⟨2 * n + 1, 2⟩ := by
    refine nearest_congr hden (by norm_num) ?_
    rw [h, value]
    push_cast
    ring
  have hquotient : (2 * n + 1) / 2 = n := by omega
  have hremainder : (2 * n + 1) % 2 = 1 := by omega
  rw [hhalf, nearest, hquotient, hremainder]
  simp

/-- The nearest integer is at most `n` below one half above it, and for an even `n` up to there. -/
theorem nearest_le_iff (hden : 0 < r.den) :
    r.nearest ≤ n ↔ r.value < n + 1 / 2 ∨ r.value = n + 1 / 2 ∧ n % 2 = 0 := by
  rcases lt_trichotomy r.value (n + 1 / 2) with hless | hhalf | hmore
  · exact iff_of_true (nearest_le hden hless) (.inl hless)
  · have hnearest := nearest_half hden hhalf
    simp only [hhalf, true_and, false_or, lt_irrefl]
    omega
  · refine iff_of_false (fun hle => ?_) (fun h => ?_)
    · have hnear := (nearest_spec hden).2.1
      have hcast : (r.nearest : ℚ) ≤ n := by exact_mod_cast hle
      linarith
    · rcases h with h | h
      · linarith
      · linarith [h.1]

end Ratio

namespace Format

variable {negative : Bool} {r s : Ratio} {m : Nat} {q : Int}

theorem two_zpow_le {a b : Int} (h : a ≤ b) : (2 : ℚ) ^ a ≤ 2 ^ b :=
  zpow_le_zpow_right₀ (by norm_num) h

theorem pow_mul_zpow (k : Nat) (q : Int) : (Nat.pow 2 k : ℚ) * 2 ^ q = 2 ^ (k + q) := by
  rw [zpow_add₀ (by norm_num), zpow_natCast, Nat.pow_eq]
  norm_cast

theorem lt_halfway (m : Nat) (q : Int) : (m : ℚ) * 2 ^ q < halfway m q := by
  unfold halfway
  gcongr
  linarith

theorem Fits.halfway_lt (fits : f.Fits m q) : halfway m q < 2 ^ ((f.precision : Int) + q) := by
  have hm : (m : ℚ) + 1 ≤ Nat.pow 2 f.precision := by exact_mod_cast fits.1
  calc halfway m q < ((m : ℚ) + 1) * 2 ^ q := by
        unfold halfway
        gcongr
        norm_num
    _ ≤ Nat.pow 2 f.precision * 2 ^ q := by gcongr
    _ = 2 ^ ((f.precision : Int) + q) := pow_mul_zpow _ _

theorem round_zero (f : Format) (negative : Bool) (hzero : r.num = 0) :
    f.round negative r = .zero f negative := by
  rw [round, if_pos hzero]

theorem round_cases (f : Format) (negative : Bool) (r : Ratio) :
    (∃ m q fits, f.round negative r = .finite negative m q fits) ∨
      f.round negative r = .infinite negative := by
  have hparts (m : Nat) (q : Int) :
      (∃ m' q' fits, Binary.ofParts f negative m q = .finite negative m' q' fits) ∨
        Binary.ofParts f negative m q = .infinite negative := by
    unfold Binary.ofParts
    split
    next fits => exact .inl ⟨m, q, fits, rfl⟩
    next => exact .inr rfl
  unfold round
  split
  next => exact hparts _ _
  next =>
    dsimp only
    split
    next => exact hparts _ _
    next => exact hparts _ _

theorem Fits.unique {m' : Nat} {q' : Int} (fits : f.Fits m q) (fits' : f.Fits m' q')
    (hprecision : 0 < f.precision) (h : (m : ℚ) * 2 ^ q = m' * 2 ^ q') : m = m' ∧ q = q' := by
  have hleast {k : Nat} {place : Int} (hfits : f.Fits k place) (hk : k = 0) :
      place = f.minExponent := by
    rcases hfits.2.2.2 with hplace | hfull
    · exact hplace
    · have hpos : 0 < Nat.pow 2 (f.precision - 1) := Nat.pow_pos (by norm_num)
      omega
  have hzero : m = 0 ↔ m' = 0 := by
    have hpow : (2 : ℚ) ^ q ≠ 0 := by positivity
    have hpow' : (2 : ℚ) ^ q' ≠ 0 := by positivity
    have hvalues : (m : ℚ) * 2 ^ q = 0 ↔ (m' : ℚ) * 2 ^ q' = 0 := by rw [h]
    simpa [hpow, hpow'] using hvalues
  rcases Nat.eq_zero_or_pos m with hm | hm
  · have hm' := hzero.mp hm
    exact ⟨hm.trans hm'.symm, (hleast fits hm).trans (hleast fits' hm').symm⟩
  · have hm' : 0 < m' := Nat.pos_of_ne_zero fun hz => hm.ne' (hzero.mpr hz)
    have hden : 0 < (Ratio.scale 2 m q).den := Ratio.scale_den_pos (by norm_num) m q
    have hvalue : (Ratio.scale 2 m q).value = m * 2 ^ q := Ratio.value_scale_two m q
    have hround : f.round false (.scale 2 m q) = .finite false m q fits :=
      round_of_fits hden hm fits hprecision hvalue
    rw [round_of_fits hden hm' fits' hprecision (hvalue.trans h)] at hround
    injection hround with _ hsignificand hexponent
    exact ⟨hsignificand.symm, hexponent.symm⟩

theorem place_spec (hnum : 0 < r.num) (hden : 0 < r.den) :
    f.minExponent ≤ f.lastPlace r ∧ r.value < 2 ^ ((f.precision : Int) + f.lastPlace r) ∧
      (f.lastPlace r = f.minExponent ∨
        (2 : ℚ) ^ ((f.precision : Int) - 1 + f.lastPlace r) ≤ r.value) := by
  obtain ⟨hle, hlt⟩ := Ratio.log2_spec hnum hden
  have hplace : f.lastPlace r = max f.minExponent (r.log2 - ((f.precision : Int) - 1)) := rfl
  refine ⟨by omega, hlt.trans_le (two_zpow_le (by omega)), ?_⟩
  rcases le_total (r.log2 - ((f.precision : Int) - 1)) f.minExponent with hsmall | hlarge
  · exact .inl (by omega)
  · refine .inr (le_trans (two_zpow_le ?_) hle)
    omega

namespace HoldsIntegers

variable (holds : f.HoldsIntegers)
include holds

theorem minExponent_le : f.minExponent ≤ f.maxExponent := by
  have hprecision := holds.precision
  have hmin := holds.minExponent
  have hmax := holds.maxExponent
  omega

theorem fits_zero : f.Fits 0 f.minExponent :=
  ⟨Nat.pow_pos (by norm_num), le_rfl, holds.minExponent_le, .inl rfl⟩

theorem pow_pred_mul_zpow (q : Int) :
    (Nat.pow 2 (f.precision - 1) : ℚ) * 2 ^ q = 2 ^ ((f.precision : Int) - 1 + q) := by
  have hprecision := holds.precision
  rw [pow_mul_zpow, Nat.cast_sub (by omega), Nat.cast_one]

theorem nearest_bounds (hnum : 0 < r.num) (hden : 0 < r.den) :
    (r.inUnits (f.lastPlace r)).nearest ≤ Nat.pow 2 f.precision ∧
      (f.lastPlace r = f.minExponent ∨
        Nat.pow 2 (f.precision - 1) ≤ (r.inUnits (f.lastPlace r)).nearest) := by
  obtain ⟨-, hlt, hfull⟩ := place_spec (f := f) hnum hden
  have hpow : (0 : ℚ) < 2 ^ f.lastPlace r := by positivity
  have hunits := Ratio.inUnits_den_pos hden (f.lastPlace r)
  refine ⟨Ratio.nearest_le hunits ?_, hfull.imp_right fun hle => Ratio.le_nearest hunits ?_⟩
  · have hless : r.value / 2 ^ f.lastPlace r < Nat.pow 2 f.precision := by
      rwa [div_lt_iff₀ hpow, pow_mul_zpow]
    rw [Ratio.value_inUnits hden]
    linarith
  · rwa [Ratio.value_inUnits hden, le_div_iff₀ hpow, holds.pow_pred_mul_zpow]

/-- A significand of full precision, or one in the least place, fits unless the number is beyond all
finite ones. -/
theorem fits_iff (hlt : m < Nat.pow 2 f.precision) (hmin : f.minExponent ≤ q)
    (hfull : q = f.minExponent ∨ Nat.pow 2 (f.precision - 1) ≤ m) :
    f.Fits m q ↔ (m : ℚ) * 2 ^ q < 2 ^ ((f.precision : Int) + f.maxExponent) := by
  have hrange := holds.minExponent_le
  constructor
  · intro h
    have hmax := h.2.2.1
    exact h.value_lt.trans_le (two_zpow_le (by omega))
  · intro h
    refine ⟨hlt, hmin, ?_, hfull⟩
    by_contra hfar
    have hm : (Nat.pow 2 (f.precision - 1) : ℚ) ≤ m := by
      exact_mod_cast hfull.resolve_left (by omega)
    have hbeyond : (2 : ℚ) ^ ((f.precision : Int) + f.maxExponent) ≤ m * 2 ^ q := by
      calc (2 : ℚ) ^ ((f.precision : Int) + f.maxExponent)
          ≤ 2 ^ ((f.precision : Int) - 1 + q) := two_zpow_le (by omega)
        _ = Nat.pow 2 (f.precision - 1) * 2 ^ q := (holds.pow_pred_mul_zpow q).symm
        _ ≤ m * 2 ^ q := by gcongr
    exact absurd h (not_lt.mpr hbeyond)

/-- The absolute value of a rounded number: the nearest multiple of the unit in its last place, as
long as that is below the next power of two after the finite numbers. -/
theorem magnitude_round (hnum : 0 < r.num) (hden : 0 < r.den) :
    (f.round negative r).magnitude =
      if ((r.inUnits (f.lastPlace r)).nearest : ℚ) * 2 ^ f.lastPlace r <
          2 ^ ((f.precision : Int) + f.maxExponent)
      then (((r.inUnits (f.lastPlace r)).nearest * 2 ^ f.lastPlace r : ℚ) : WithTop ℚ)
      else ⊤ := by
  obtain ⟨hmin, -, -⟩ := place_spec (f := f) hnum hden
  obtain ⟨hupper, hlower⟩ := holds.nearest_bounds hnum hden
  have hdouble := holds.pow_precision
  have hhalf : 1 ≤ Nat.pow 2 (f.precision - 1) := Nat.one_le_two_pow
  rw [round, if_neg hnum.ne']
  dsimp only
  split
  next hcarry =>
    have hsame : (Nat.pow 2 (f.precision - 1) : ℚ) * 2 ^ (f.lastPlace r + 1) =
        (Nat.pow 2 f.precision : ℚ) * 2 ^ f.lastPlace r := by
      rw [holds.pow_pred_mul_zpow, pow_mul_zpow]
      congr 1
      omega
    have hfits := holds.fits_iff (m := Nat.pow 2 (f.precision - 1)) (q := f.lastPlace r + 1)
      (by omega) (by omega) (.inr le_rfl)
    rw [Binary.magnitude_ofParts, hcarry, ← hsame]
    simp only [hfits]
  next hcarry =>
    have hless : (r.inUnits (f.lastPlace r)).nearest < Nat.pow 2 f.precision :=
      lt_of_le_of_ne hupper hcarry
    have hfits := holds.fits_iff hless hmin hlower
    rw [Binary.magnitude_ofParts]
    simp only [hfits]

/-- A number of a format is at least what a value is rounded to exactly if the value is at most
halfway to the next number, and not there if the significand is odd. -/
theorem round_le_iff (fits : f.Fits m q) (hden : 0 < r.den) :
    (f.round negative r).magnitude ≤ ((m * 2 ^ q : ℚ) : WithTop ℚ) ↔
      r.value < halfway m q ∨ r.value = halfway m q ∧ m % 2 = 0 := by
  have hpow : (0 : ℚ) < 2 ^ q := by positivity
  rcases Nat.eq_zero_or_pos r.num with hzero | hnum
  · have hvalue : r.value = 0 := (Ratio.value_eq_zero hden).mpr hzero
    have hpositive : 0 < halfway m q := by unfold halfway; positivity
    refine iff_of_true ?_ (.inl (hvalue ▸ hpositive))
    rw [f.round_zero negative hzero, Binary.zero, Binary.magnitude_ofParts,
      if_pos holds.fits_zero, WithTop.coe_le_coe, Nat.cast_zero, zero_mul]
    positivity
  obtain ⟨hmin, hlt, hfull⟩ := place_spec (f := f) hnum hden
  obtain ⟨hupper, hlower⟩ := holds.nearest_bounds hnum hden
  have hbelow : (m : ℚ) * 2 ^ q < 2 ^ ((f.precision : Int) + f.maxExponent) :=
    fits.value_lt.trans_le (two_zpow_le (by have := fits.2.2.1; omega))
  have hnearest : (f.round negative r).magnitude ≤ ((m * 2 ^ q : ℚ) : WithTop ℚ) ↔
      ((r.inUnits (f.lastPlace r)).nearest : ℚ) * 2 ^ f.lastPlace r ≤ m * 2 ^ q := by
    rw [holds.magnitude_round hnum hden]
    split
    next => exact WithTop.coe_le_coe
    next hfar =>
      exact iff_of_false (WithTop.not_top_le_coe _) (fun hle => hfar (hle.trans_lt hbelow))
  rw [hnearest]
  rcases lt_trichotomy (f.lastPlace r) q with hplace | rfl | hplace
  · -- the value has a smaller last place, so it lies below all numbers with the last place `q`
    have hm : (Nat.pow 2 (f.precision - 1) : ℚ) ≤ m := by
      exact_mod_cast fits.2.2.2.resolve_left (by omega)
    have hreach : (2 : ℚ) ^ ((f.precision : Int) + f.lastPlace r) ≤ m * 2 ^ q := by
      calc (2 : ℚ) ^ ((f.precision : Int) + f.lastPlace r)
          ≤ 2 ^ ((f.precision : Int) - 1 + q) := two_zpow_le (by omega)
        _ = Nat.pow 2 (f.precision - 1) * 2 ^ q := (holds.pow_pred_mul_zpow q).symm
        _ ≤ m * 2 ^ q := by gcongr
    refine iff_of_true ?_ (.inl ?_)
    · have hcast : ((r.inUnits (f.lastPlace r)).nearest : ℚ) ≤ Nat.pow 2 f.precision := by
        exact_mod_cast hupper
      calc ((r.inUnits (f.lastPlace r)).nearest : ℚ) * 2 ^ f.lastPlace r
          ≤ Nat.pow 2 f.precision * 2 ^ f.lastPlace r := by gcongr
        _ = 2 ^ ((f.precision : Int) + f.lastPlace r) := pow_mul_zpow _ _
        _ ≤ m * 2 ^ q := hreach
    · exact hlt.trans (hreach.trans_lt (lt_halfway m q))
  · have hunits := Ratio.inUnits_den_pos hden (f.lastPlace r)
    have hscaled : r.value = (r.inUnits (f.lastPlace r)).value * 2 ^ f.lastPlace r := by
      rw [Ratio.value_inUnits hden]
      field_simp
    rw [hscaled, halfway, mul_le_mul_iff_left₀ hpow, mul_lt_mul_iff_left₀ hpow,
      mul_left_inj' hpow.ne', Nat.cast_le]
    exact Ratio.nearest_le_iff hunits
  · -- the value has a greater last place, so it lies above all numbers with the last place `q`
    have hplaceFull := hfull.resolve_left (by have := fits.2.1; omega)
    have hnearestFull : (Nat.pow 2 (f.precision - 1) : ℚ) ≤
        (r.inUnits (f.lastPlace r)).nearest := by
      exact_mod_cast hlower.resolve_left (by have := fits.2.1; omega)
    have hhalf : halfway m q < 2 ^ ((f.precision : Int) - 1 + f.lastPlace r) :=
      fits.halfway_lt.trans_le (two_zpow_le (by omega))
    refine iff_of_false (not_le.mpr ?_) ?_
    · calc (m : ℚ) * 2 ^ q < halfway m q := lt_halfway m q
        _ < 2 ^ ((f.precision : Int) - 1 + f.lastPlace r) := hhalf
        _ = Nat.pow 2 (f.precision - 1) * 2 ^ f.lastPlace r :=
            (holds.pow_pred_mul_zpow _).symm
        _ ≤ (r.inUnits (f.lastPlace r)).nearest * 2 ^ f.lastPlace r := by gcongr
    · have hvalue : halfway m q < r.value := hhalf.trans_le hplaceFull
      rintro (h | ⟨h, -⟩)
      · exact absurd h (not_lt.mpr hvalue.le)
      · exact absurd h hvalue.ne'

theorem round_mono (hr : 0 < r.den) (hs : 0 < s.den) (hle : r.value ≤ s.value) :
    (f.round negative r).magnitude ≤ (f.round negative s).magnitude := by
  rcases f.round_cases negative s with ⟨m, q, fits, hround⟩ | hround
  · have hself : (f.round negative s).magnitude ≤ ((m * 2 ^ q : ℚ) : WithTop ℚ) := by
      rw [hround, Binary.magnitude]
    have hbound : r.value < halfway m q ∨ r.value = halfway m q ∧ m % 2 = 0 := by
      rcases (holds.round_le_iff fits hs).mp hself with hless | ⟨heq, heven⟩
      · exact .inl (hle.trans_lt hless)
      · exact (lt_or_eq_of_le (hle.trans_eq heq)).imp_right fun h => ⟨h, heven⟩
    rw [hround]
    exact (holds.round_le_iff fits hr).mpr hbound
  · rw [hround]
    exact le_top

theorem magnitude_exact (hden : 0 < r.den) (hm : m < Nat.pow 2 f.precision)
    (hmin : f.minExponent ≤ q) (hmax : q ≤ f.maxExponent) (h : r.value = m * 2 ^ q) :
    (f.round negative r).magnitude = (r.value : WithTop ℚ) := by
  have hless : r.value < 2 ^ ((f.precision : Int) + q) := by
    rw [h, ← pow_mul_zpow]
    gcongr
  rcases Nat.eq_zero_or_pos r.num with hzero | hnum
  · have hvalue : r.value = 0 := (Ratio.value_eq_zero hden).mpr hzero
    rw [hvalue, f.round_zero negative hzero, Binary.zero, Binary.magnitude_ofParts,
      if_pos holds.fits_zero]
    simp
  · have hlog := Ratio.log2_lt hnum hden hless
    obtain ⟨k, hk⟩ : ∃ k : Nat, q = f.lastPlace r + k := by
      refine Int.exists_add_of_le (max_le hmin ?_)
      omega
    have hunits : (r.inUnits (f.lastPlace r)).value = (m * 2 ^ k : Nat) := by
      rw [Ratio.value_inUnits hden, h, hk, zpow_add₀ (by norm_num), zpow_natCast]
      push_cast
      field_simp
    have hnearest := Ratio.nearest_of_integer (Ratio.inUnits_den_pos hden _) hunits
    have hsame : ((m * 2 ^ k : Nat) : ℚ) * 2 ^ f.lastPlace r = r.value := by
      rw [h, hk, zpow_add₀ (by norm_num), zpow_natCast]
      push_cast
      ring
    rw [holds.magnitude_round hnum hden, hnearest, hsame, if_pos]
    exact hless.trans_le (two_zpow_le (by omega))

theorem round_eq_of_magnitude (fits : f.Fits m q)
    (h : (f.round negative r).magnitude = ((m * 2 ^ q : ℚ) : WithTop ℚ)) :
    f.round negative r = .finite negative m q fits := by
  rcases f.round_cases negative r with ⟨m', q', fits', hround⟩ | hround
  · rw [hround, Binary.magnitude, WithTop.coe_inj] at h
    obtain ⟨rfl, rfl⟩ := fits'.unique fits holds.precision h
    exact hround
  · rw [hround] at h
    exact absurd h WithTop.top_ne_coe

theorem usual : f.Usual := by
  have hprecision := holds.precision
  have hmin := holds.minExponent
  have hmax := holds.maxExponent
  exact ⟨hprecision, by omega, by omega⟩

end HoldsIntegers

theorem single_holdsIntegers : Format.single.HoldsIntegers :=
  ⟨by decide, by decide, by decide⟩

end Format

namespace Decimal

variable {negative : Bool} {c d e : Decimal} {m : Nat} {q : Int}

/-- The shortcuts of the rounding of decimals do not show. -/
theorem round_eq (holds : f.HoldsIntegers) (negative : Bool) (d : Decimal) :
    d.round f negative = f.round negative (.scale 10 d.coefficient d.exponent) := by
  unfold round
  split
  next hzero =>
    refine (f.round_zero negative ?_).symm
    rw [← Ratio.value_eq_zero d.scale_den_pos, value_scale, value_eq_zero, hzero]
  next hcoefficient =>
    obtain ⟨hle, hlt⟩ := point_spec hcoefficient
    have hmin := holds.minExponent
    have hmax := holds.maxExponent
    have hprecision := holds.precision
    split
    next hfar =>
      have hbeyond : (2 : ℚ) ^ ((f.precision : Int) + f.maxExponent) ≤ d.value := by
        calc (2 : ℚ) ^ ((f.precision : Int) + f.maxExponent) ≤ 2 ^ (d.point - 1) :=
              Format.two_zpow_le (by omega)
          _ ≤ 10 ^ (d.point - 1) := zpow_le_zpow_left₀ (by omega) (by norm_num) (by norm_num)
          _ ≤ d.value := hle
      rcases f.round_cases negative (.scale 10 d.coefficient d.exponent) with
        ⟨m, q, fits, hround⟩ | hround
      · have hself : (f.round negative (.scale 10 d.coefficient d.exponent)).magnitude ≤
            ((m * 2 ^ q : ℚ) : WithTop ℚ) := by
          rw [hround, Binary.magnitude]
        have hbound := (holds.round_le_iff fits d.scale_den_pos).mp hself
        have hnext : halfway m q < 2 ^ ((f.precision : Int) + f.maxExponent) :=
          fits.halfway_lt.trans_le (Format.two_zpow_le (by have := fits.2.2.1; omega))
        rw [value_scale] at hbound
        rcases hbound with hless | ⟨heq, -⟩
        · linarith
        · linarith
      · exact hround.symm
    next hnear =>
      split
      next hfar =>
        have hpoint : d.point ≤ 0 := by omega
        have hless : d.value < halfway 0 f.minExponent := by
          calc d.value < 10 ^ d.point := hlt
            _ ≤ 2 ^ (3 * d.point) := ten_zpow_le hpoint
            _ ≤ 2 ^ (f.minExponent - 1) := Format.two_zpow_le (by omega)
            _ = halfway 0 f.minExponent := by
              rw [halfway, zpow_sub₀ (by norm_num)]
              norm_num
              ring
        rw [← value_scale] at hless
        have hzero : (f.round negative (.scale 10 d.coefficient d.exponent)).magnitude =
            (((0 : Nat) * 2 ^ f.minExponent : ℚ) : WithTop ℚ) := by
          refine le_antisymm ((holds.round_le_iff holds.fits_zero d.scale_den_pos).mpr
            (.inl hless)) ?_
          rw [Nat.cast_zero, zero_mul]
          exact Binary.magnitude_nonneg _
        rw [holds.round_eq_of_magnitude holds.fits_zero hzero, Binary.zero, Binary.ofParts,
          dif_pos holds.fits_zero]
      next => rfl

theorem round_mono (holds : f.HoldsIntegers) (h : d.value ≤ e.value) :
    (d.round f negative).magnitude ≤ (e.round f negative).magnitude := by
  rw [round_eq holds, round_eq holds]
  exact holds.round_mono d.scale_den_pos e.scale_den_pos (by rwa [value_scale, value_scale])

/-- What lies between two decimals that are rounded to one number is rounded to it too. -/
theorem round_between (holds : f.HoldsIntegers) {fits : f.Fits m q} (hde : d.value ≤ e.value)
    (hec : e.value ≤ c.value) (hd : d.round f negative = .finite negative m q fits)
    (hc : c.round f negative = .finite negative m q fits) :
    e.round f negative = .finite negative m q fits := by
  have hlower : (d.round f negative).magnitude ≤ (e.round f negative).magnitude :=
    round_mono holds hde
  have hupper : (e.round f negative).magnitude ≤ (c.round f negative).magnitude :=
    round_mono holds hec
  rw [hd] at hlower
  rw [hc] at hupper
  have hmagnitude := le_antisymm hupper hlower
  rw [round_eq holds] at hmagnitude ⊢
  exact holds.round_eq_of_magnitude fits hmagnitude

theorem magnitude_setSign (x : Binary f) : (x.setSign negative).magnitude = x.magnitude := by
  cases x <;> rfl

theorem round_eq_iff_unsigned (holds : f.HoldsIntegers) {fits : f.Fits m q} :
    d.round f negative = .finite negative m q fits ↔ d.round f false = .finite false m q fits := by
  have hsame : (d.round f negative).magnitude = (d.round f false).magnitude := by
    rw [← setSign_round, magnitude_setSign]
  constructor
  · intro h
    rw [h, round_eq holds] at hsame
    rw [round_eq holds, holds.round_eq_of_magnitude fits hsame.symm]
  · intro h
    rw [h, round_eq holds] at hsame
    rw [round_eq holds, holds.round_eq_of_magnitude fits hsame]

end Decimal

end ProgramTrees
