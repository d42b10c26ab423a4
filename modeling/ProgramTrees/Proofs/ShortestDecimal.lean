import ProgramTrees.Decimal
import ProgramTrees.Proofs.Rounding

namespace ProgramTrees

/-- The formats that the bounds of the rounding of decimals are meant for. -/
structure Format.Usual (f : Format) : Prop where
  precision : 0 < f.precision
  minExponent : f.minExponent ≤ 0
  maxExponent : 0 ≤ f.maxExponent + f.precision

theorem Format.double_usual : Format.double.Usual :=
  ⟨by decide, by decide, by decide⟩

namespace Decimal

variable {f : Format} {negative : Bool} {d e : Decimal} {m : Nat} {q : Int}

def value (d : Decimal) : ℚ := d.coefficient * (10 : ℚ) ^ d.exponent

theorem scale_den_pos (d : Decimal) : 0 < (Ratio.scale 10 d.coefficient d.exponent).den :=
  Ratio.scale_den_pos (by norm_num) _ _

theorem value_scale (d : Decimal) : (Ratio.scale 10 d.coefficient d.exponent).value = d.value := by
  rw [Ratio.value_scale (by norm_num), value]
  norm_num

theorem value_eq_zero : d.value = 0 ↔ d.coefficient = 0 := by
  have hpow : (10 : ℚ) ^ d.exponent ≠ 0 := by positivity
  simp [value, hpow]

theorem pow_le_coefficient (h : d.coefficient ≠ 0) :
    10 ^ (d.digits.length - 1) ≤ d.coefficient := by
  rcases Nat.eq_zero_or_pos (d.digits.length - 1) with hzero | hpos
  · rw [hzero]
    omega
  · by_contra hlt
    have hle := (Nat.length_toDigits_le_iff (by norm_num) hpos).mpr (not_le.mp hlt)
    unfold digits at hle hpos
    omega

theorem coefficient_lt (d : Decimal) : d.coefficient < 10 ^ d.digits.length :=
  (Nat.length_toDigits_le_iff (by norm_num) Nat.length_toDigits_pos).mp (Nat.le_refl _)

theorem point_spec (h : d.coefficient ≠ 0) :
    (10 : ℚ) ^ (d.point - 1) ≤ d.value ∧ d.value < (10 : ℚ) ^ d.point := by
  have hlength : 0 < d.digits.length := Nat.length_toDigits_pos
  constructor
  · rw [point, value, show (d.digits.length : Int) + d.exponent - 1 =
      ((d.digits.length - 1 : Nat) : Int) + d.exponent by omega, zpow_add₀ (by norm_num),
      zpow_natCast]
    gcongr
    exact_mod_cast pow_le_coefficient h
  · rw [point, value, zpow_add₀ (by norm_num), zpow_natCast]
    gcongr
    exact_mod_cast d.coefficient_lt

theorem point_congr (hd : d.coefficient ≠ 0) (h : d.value = e.value) : d.point = e.point := by
  have he : e.coefficient ≠ 0 := by rwa [Ne, ← value_eq_zero, ← h, value_eq_zero]
  obtain ⟨hdle, hdlt⟩ := point_spec hd
  obtain ⟨hele, helt⟩ := point_spec he
  rw [h] at hdle hdlt
  have hbelow := (zpow_lt_zpow_iff_right₀ (by norm_num : (1 : ℚ) < 10)).mp (hdle.trans_lt helt)
  have habove := (zpow_lt_zpow_iff_right₀ (by norm_num : (1 : ℚ) < 10)).mp (hele.trans_lt hdlt)
  omega

theorem round_congr (h : d.value = e.value) : d.round f negative = e.round f negative := by
  unfold round
  by_cases hd : d.coefficient = 0
  · have he : e.coefficient = 0 := by rwa [← value_eq_zero, ← h, value_eq_zero]
    rw [if_pos hd, if_pos he]
  · have he : e.coefficient ≠ 0 := by rwa [Ne, ← value_eq_zero, ← h, value_eq_zero]
    have hscale : f.round negative (.scale 10 d.coefficient d.exponent) =
        f.round negative (.scale 10 e.coefficient e.exponent) :=
      Format.round_congr d.scale_den_pos e.scale_den_pos (by rw [value_scale, value_scale, h])
    rw [if_neg hd, if_neg he, point_congr hd h, hscale]

theorem value_ofParts (m : Nat) (q : Int) : (ofParts m q).value = m * (2 : ℚ) ^ q := by
  unfold ofParts value
  split
  next h =>
    obtain ⟨k, rfl⟩ := Int.eq_ofNat_of_zero_le h
    simp [Nat.pow_eq]
  next h =>
    obtain ⟨k, rfl⟩ : ∃ k : Nat, q = -(k : Int) := ⟨(-q).toNat, by omega⟩
    have hten : (10 : ℚ) ^ k = 5 ^ k * 2 ^ k := by rw [← mul_pow]; norm_num
    simp only [neg_neg, Int.toNat_natCast, Nat.pow_eq, zpow_neg, zpow_natCast, hten]
    push_cast
    field_simp

theorem value_trim (d : Decimal) : d.trim.value = d.value := by
  induction d using trim.induct with
  | case1 d h ih =>
    rw [trim, if_pos h, ih]
    obtain ⟨k, hk⟩ := Nat.dvd_of_mod_eq_zero h.2
    rw [value, value, hk, Nat.mul_div_cancel_left k (by norm_num), zpow_add₀ (by norm_num)]
    push_cast
    ring
  | case2 d h => rw [trim, if_neg h]

theorem accept_neighbour {accept : Decimal → Bool} {drop : Nat}
    (h : d.neighbour? accept drop = some e) : accept e = true := by
  unfold neighbour? at h
  dsimp only at h
  split at h
  next hdown hup =>
    obtain rfl := Option.some.inj h
    split
    next => exact hdown
    next => exact hup
  next hdown _ => exact Option.some.inj h ▸ hdown
  next _ hup => exact Option.some.inj h ▸ hup
  next => exact nomatch h

theorem accept_shorten (accept : Decimal → Bool) (h : accept d = true) (drop : Nat) :
    accept (d.shorten accept drop) = true := by
  induction drop with
  | zero => exact h
  | succ drop ih =>
    rw [shorten]
    cases hnext : d.neighbour? accept (drop + 1) with
    | none => exact ih
    | some e => exact accept_neighbour hnext

theorem ten_zpow_le {p : Int} (h : p ≤ 0) : (10 : ℚ) ^ p ≤ 2 ^ (3 * p) := by
  obtain ⟨k, rfl⟩ : ∃ k : Nat, p = -(k : Int) := ⟨(-p).toNat, by omega⟩
  rw [zpow_mul, zpow_neg, zpow_neg, zpow_natCast, zpow_natCast]
  gcongr
  norm_num

/-- The exact decimal of a number of the format is rounded to that number. -/
theorem round_ofParts (usual : f.Usual) (hm : 0 < m) (fits : f.Fits m q) :
    (ofParts m q).round f negative = .finite negative m q fits := by
  have hvalue := value_ofParts m q
  have hpos : (0 : ℚ) < (ofParts m q).value := by
    rw [hvalue]
    positivity
  have hcoefficient : (ofParts m q).coefficient ≠ 0 := by
    rw [Ne, ← value_eq_zero]
    exact hpos.ne'
  obtain ⟨hle, hlt⟩ := point_spec hcoefficient
  have hexact : f.round negative (.scale 10 (ofParts m q).coefficient (ofParts m q).exponent) =
      .finite negative m q fits := by
    refine Format.round_of_fits (scale_den_pos _) hm fits usual.precision ?_
    rw [value_scale, hvalue]
  have hlower := fits.2.1
  have hupper := fits.2.2.1
  have hbelow : ¬ f.maxExponent + f.precision < (ofParts m q).point - 1 := by
    intro hfar
    have hpoint : (0 : Int) ≤ (ofParts m q).point - 1 := by
      have hordinary := usual.maxExponent
      omega
    have htwo : (2 : ℚ) ^ ((ofParts m q).point - 1) ≤ (10 : ℚ) ^ ((ofParts m q).point - 1) :=
      zpow_le_zpow_left₀ hpoint (by norm_num) (by norm_num)
    have hexponent := (zpow_lt_zpow_iff_right₀ (by norm_num : (1 : ℚ) < 2)).mp
      ((htwo.trans hle).trans_lt (hvalue ▸ fits.value_lt))
    omega
  have habove : ¬ 3 * (ofParts m q).point < f.minExponent := by
    intro hfar
    have hpoint : (ofParts m q).point ≤ 0 := by
      have hordinary := usual.minExponent
      omega
    have hbound : (2 : ℚ) ^ f.minExponent ≤ (ofParts m q).value := by
      calc (2 : ℚ) ^ f.minExponent ≤ (2 : ℚ) ^ q :=
            zpow_le_zpow_right₀ (by norm_num) hlower
        _ ≤ m * (2 : ℚ) ^ q := by
          have hone : (1 : ℚ) ≤ m := by exact_mod_cast hm
          exact le_mul_of_one_le_left (by positivity) hone
        _ = (ofParts m q).value := hvalue.symm
    have hexponent := (zpow_lt_zpow_iff_right₀ (by norm_num : (1 : ℚ) < 2)).mp
      (hbound.trans_lt (hlt.trans_le (ten_zpow_le hpoint)))
    omega
  unfold round
  rw [if_neg hcoefficient, if_neg hbelow, if_neg habove, hexact]

end Decimal

def Binary.setSign {f : Format} (negative : Bool) : Binary f → Binary f
  | .nan => .nan
  | .infinite _ => .infinite negative
  | .finite _ m q fits => .finite negative m q fits

theorem Binary.setSign_ofParts {f : Format} (negative : Bool) (m : Nat) (q : Int) :
    (Binary.ofParts f false m q).setSign negative = .ofParts f negative m q := by
  unfold ofParts
  split <;> rfl

namespace Decimal

variable {f : Format} {d : Decimal} {m : Nat} {q : Int}

theorem setSign_round (f : Format) (negative : Bool) (d : Decimal) :
    (d.round f false).setSign negative = d.round f negative := by
  unfold round Format.round
  split
  next => exact Binary.setSign_ofParts negative _ _
  next =>
    split
    next => rfl
    next =>
      split
      next => exact Binary.setSign_ofParts negative _ _
      next =>
        split
        next => exact Binary.setSign_ofParts negative _ _
        next =>
          dsimp only
          split <;> exact Binary.setSign_ofParts negative _ _

/-- The decimal with the fewest digits is rounded to the number that it was made for. -/
theorem round_shortest (usual : f.Usual) (negative : Bool) (hm : 0 < m) (fits : f.Fits m q) :
    (shortest f m q).round f negative = .finite negative m q fits := by
  have hexact : decide ((ofParts m q).round f false = .ofParts f false m q) = true := by
    rw [decide_eq_true_iff, round_ofParts usual hm fits, Binary.ofParts, dif_pos fits]
  have hshort := accept_shorten (fun d => decide (d.round f false = .ofParts f false m q)) hexact
    ((ofParts m q).digits.length - 1)
  rw [decide_eq_true_iff] at hshort
  have htrim : (shortest f m q).round f false = .finite false m q fits := by
    rw [shortest, round_congr (value_trim _), hshort, Binary.ofParts, dif_pos fits]
  rw [← setSign_round, htrim, Binary.setSign]

theorem round_of_value_zero (h : d.value = 0) (negative : Bool) (fits : f.Fits 0 q) :
    d.round f negative = .finite negative 0 q fits := by
  have hq : q = f.minExponent := by
    rcases fits.2.2.2 with hq | hfull
    · exact hq
    · have hpos : 0 < Nat.pow 2 (f.precision - 1) := Nat.pow_pos (by norm_num)
      omega
  subst hq
  rw [round, if_pos (value_eq_zero.mp h), Binary.zero, Binary.ofParts, dif_pos fits]

theorem shortest_coefficient_pos (usual : f.Usual) (hm : 0 < m) (fits : f.Fits m q) :
    0 < (shortest f m q).coefficient := by
  rw [Nat.pos_iff_ne_zero]
  intro hzero
  have h := round_shortest usual false hm fits
  rw [round, if_pos hzero, Binary.zero, Binary.ofParts] at h
  split at h
  next =>
    injection h with _ hm'
    exact hm.ne hm'
  next => cases h

end Decimal

end ProgramTrees
