import Mathlib.Algebra.Order.Field.Basic
import Mathlib.Algebra.Order.Field.Power
import Mathlib.Data.Nat.Cast.Order.Field
import Mathlib.Data.Rat.Cast.Order
import Mathlib.Tactic.FieldSimp
import Mathlib.Tactic.Linarith
import Mathlib.Tactic.NormNum
import Mathlib.Tactic.Positivity
import Mathlib.Tactic.Ring
import ProgramTrees.Binary

namespace ProgramTrees

namespace Ratio

def value (r : Ratio) : ℚ := r.num / r.den

theorem scale_den_pos {base : Nat} (hb : 0 < base) (m : Nat) (q : Int) :
    0 < (scale base m q).den := by
  unfold scale
  split
  next => exact Nat.one_pos
  next => exact Nat.pow_pos hb

theorem value_scale {base : Nat} (hb : 0 < base) (m : Nat) (q : Int) :
    (scale base m q).value = m * (base : ℚ) ^ q := by
  have hbase : (base : ℚ) ≠ 0 := by positivity
  unfold scale value
  split
  next h =>
    obtain ⟨k, rfl⟩ := Int.eq_ofNat_of_zero_le h
    simp [Nat.pow_eq]
  next h =>
    obtain ⟨k, rfl⟩ : ∃ k : Nat, q = -(k : Int) := ⟨(-q).toNat, by omega⟩
    simp [Nat.pow_eq, div_eq_mul_inv]

theorem value_scale_two (m : Nat) (q : Int) : (scale 2 m q).value = m * 2 ^ q :=
  value_scale (by norm_num) m q

theorem lt_iff {r s : Ratio} (hr : 0 < r.den) (hs : 0 < s.den) :
    r.lt s = true ↔ r.value < s.value := by
  have hr' : (0 : ℚ) < r.den := by exact_mod_cast hr
  have hs' : (0 : ℚ) < s.den := by exact_mod_cast hs
  unfold lt value
  rw [decide_eq_true_iff, div_lt_div_iff₀ hr' hs']
  exact_mod_cast Iff.rfl

theorem value_eq_zero {r : Ratio} (hden : 0 < r.den) : r.value = 0 ↔ r.num = 0 := by
  have hden' : (r.den : ℚ) ≠ 0 := by positivity
  simp [value, hden']

theorem num_pos_of_value {r : Ratio} (hden : 0 < r.den) (h : 0 < r.value) : 0 < r.num :=
  Nat.pos_of_ne_zero fun hnum => h.ne' ((value_eq_zero hden).mpr hnum)

theorem log2_spec {r : Ratio} (hnum : 0 < r.num) (hden : 0 < r.den) :
    (2 : ℚ) ^ r.log2 ≤ r.value ∧ r.value < (2 : ℚ) ^ (r.log2 + 1) := by
  have hden' : (0 : ℚ) < r.den := by exact_mod_cast hden
  have hnumLe : (2 : ℚ) ^ (r.num.log2 : Int) ≤ r.num := by
    rw [zpow_natCast]
    exact_mod_cast Nat.log2_self_le (by omega)
  have hnumLt : (r.num : ℚ) < (2 : ℚ) ^ ((r.num.log2 : Int) + 1) := by
    rw [← Nat.cast_succ, zpow_natCast]
    exact_mod_cast Nat.lt_log2_self
  have hdenLe : (2 : ℚ) ^ (r.den.log2 : Int) ≤ r.den := by
    rw [zpow_natCast]
    exact_mod_cast Nat.log2_self_le (by omega)
  have hdenLt : (r.den : ℚ) < (2 : ℚ) ^ ((r.den.log2 : Int) + 1) := by
    rw [← Nat.cast_succ, zpow_natCast]
    exact_mod_cast Nat.lt_log2_self
  have habove : r.value < (2 : ℚ) ^ ((r.num.log2 : Int) - r.den.log2 + 1) := by
    unfold value
    rw [div_lt_iff₀ hden']
    calc (r.num : ℚ) < (2 : ℚ) ^ ((r.num.log2 : Int) + 1) := hnumLt
      _ = (2 : ℚ) ^ ((r.num.log2 : Int) - r.den.log2 + 1) * (2 : ℚ) ^ (r.den.log2 : Int) := by
        rw [← zpow_add₀ (by norm_num)]
        congr 1
        omega
      _ ≤ (2 : ℚ) ^ ((r.num.log2 : Int) - r.den.log2 + 1) * r.den := by gcongr
  have hbelow : (2 : ℚ) ^ ((r.num.log2 : Int) - r.den.log2 - 1) ≤ r.value := by
    unfold value
    rw [le_div_iff₀ hden']
    calc (2 : ℚ) ^ ((r.num.log2 : Int) - r.den.log2 - 1) * r.den
        ≤ (2 : ℚ) ^ ((r.num.log2 : Int) - r.den.log2 - 1) *
          (2 : ℚ) ^ ((r.den.log2 : Int) + 1) := by gcongr
      _ = (2 : ℚ) ^ (r.num.log2 : Int) := by
        rw [← zpow_add₀ (by norm_num)]
        congr 1
        omega
      _ ≤ r.num := hnumLe
  unfold log2
  dsimp only
  split
  next h =>
    rw [lt_iff hden (scale_den_pos (by norm_num) _ _), value_scale_two] at h
    exact ⟨hbelow, by simpa using h⟩
  next h =>
    rw [Bool.not_eq_true, ← Bool.not_eq_true, lt_iff hden (scale_den_pos (by norm_num) _ _),
      value_scale_two, not_lt] at h
    exact ⟨by simpa using h, habove⟩

theorem log2_unique {r : Ratio} (hnum : 0 < r.num) (hden : 0 < r.den) {e : Int}
    (hle : (2 : ℚ) ^ e ≤ r.value) (hlt : r.value < (2 : ℚ) ^ (e + 1)) : r.log2 = e := by
  obtain ⟨hle', hlt'⟩ := log2_spec hnum hden
  have hbelow := (zpow_lt_zpow_iff_right₀ (by norm_num : (1 : ℚ) < 2)).mp (hle.trans_lt hlt')
  have habove := (zpow_lt_zpow_iff_right₀ (by norm_num : (1 : ℚ) < 2)).mp (hle'.trans_lt hlt)
  omega

theorem log2_lt {r : Ratio} (hnum : 0 < r.num) (hden : 0 < r.den) {e : Int}
    (h : r.value < (2 : ℚ) ^ e) : r.log2 < e :=
  (zpow_lt_zpow_iff_right₀ (by norm_num : (1 : ℚ) < 2)).mp
    ((log2_spec hnum hden).1.trans_lt h)

theorem inUnits_den_pos {r : Ratio} (hden : 0 < r.den) (q : Int) : 0 < (r.inUnits q).den := by
  unfold inUnits
  split
  next => exact Nat.mul_pos hden (Nat.pow_pos (by norm_num))
  next => exact hden

theorem value_inUnits {r : Ratio} (hden : 0 < r.den) (q : Int) :
    (r.inUnits q).value = r.value / (2 : ℚ) ^ q := by
  have hden' : (r.den : ℚ) ≠ 0 := by positivity
  unfold inUnits value
  split
  next h =>
    obtain ⟨k, rfl⟩ := Int.eq_ofNat_of_zero_le h
    simp [Nat.pow_eq, div_div]
  next h =>
    obtain ⟨k, rfl⟩ : ∃ k : Nat, q = -(k : Int) := ⟨(-q).toNat, by omega⟩
    simp [Nat.pow_eq]
    ring

theorem nearest_congr {r s : Ratio} (hr : 0 < r.den) (hs : 0 < s.den) (h : r.value = s.value) :
    r.nearest = s.nearest := by
  have hr' : (r.den : ℚ) ≠ 0 := by positivity
  have hs' : (s.den : ℚ) ≠ 0 := by positivity
  have hcross : r.num * s.den = s.num * r.den := by
    unfold value at h
    rw [div_eq_div_iff hr' hs'] at h
    exact_mod_cast h
  have hscale (t u : Ratio) (hu : 0 < u.den) :
      nearest ⟨t.num * u.den, t.den * u.den⟩ = t.nearest := by
    have hdouble (x : Nat) : 2 * (x * u.den) = 2 * x * u.den := by ring
    unfold nearest
    dsimp only
    rw [Nat.mul_div_mul_right _ _ hu, Nat.mul_mod_mul_right, hdouble]
    simp only [Nat.mul_lt_mul_right hu]
  calc r.nearest = nearest ⟨r.num * s.den, r.den * s.den⟩ := (hscale r s hs).symm
    _ = nearest ⟨s.num * r.den, s.den * r.den⟩ := by rw [hcross, Nat.mul_comm r.den]
    _ = s.nearest := hscale s r hr

theorem nearest_of_integer {r : Ratio} (hden : 0 < r.den) {m : Nat} (h : r.value = m) :
    r.nearest = m := by
  have hone : r.nearest = nearest ⟨m, 1⟩ := nearest_congr hden Nat.one_pos (by simpa [value] using h)
  rw [hone]
  simp [nearest, Nat.mod_one]

end Ratio

namespace Format

variable {f : Format} {negative : Bool}

theorem round_congr {r s : Ratio} (hr : 0 < r.den) (hs : 0 < s.den) (h : r.value = s.value) :
    f.round negative r = f.round negative s := by
  have hzero : r.num = 0 ↔ s.num = 0 := by
    rw [← Ratio.value_eq_zero hr, ← Ratio.value_eq_zero hs, h]
  unfold round
  by_cases hnum : r.num = 0
  · rw [if_pos hnum, if_pos (hzero.mp hnum)]
  · have hnum' : s.num ≠ 0 := fun heq => hnum (hzero.mpr heq)
    obtain ⟨hle, hlt⟩ := Ratio.log2_spec (Nat.pos_of_ne_zero hnum') hs
    have hlog : r.log2 = s.log2 :=
      Ratio.log2_unique (Nat.pos_of_ne_zero hnum) hr (h ▸ hle) (h ▸ hlt)
    have hplace : f.lastPlace r = f.lastPlace s := by rw [lastPlace, lastPlace, hlog]
    have hunits : (r.inUnits (f.lastPlace s)).nearest = (s.inUnits (f.lastPlace s)).nearest := by
      refine Ratio.nearest_congr (Ratio.inUnits_den_pos hr _) (Ratio.inUnits_den_pos hs _) ?_
      rw [Ratio.value_inUnits hr, Ratio.value_inUnits hs, h]
    rw [if_neg hnum, if_neg hnum', hplace]
    dsimp only
    rw [hunits]

theorem Fits.value_lt {m : Nat} {q : Int} (fits : f.Fits m q) :
    m * (2 : ℚ) ^ q < (2 : ℚ) ^ ((f.precision : Int) + q) := by
  rw [zpow_add₀ (by norm_num), zpow_natCast]
  gcongr
  exact_mod_cast fits.1

theorem lastPlace_of_fits {r : Ratio} (hden : 0 < r.den) {m : Nat} {q : Int} (hm : 0 < m)
    (fits : f.Fits m q) (hprecision : 0 < f.precision) (h : r.value = m * (2 : ℚ) ^ q) :
    f.lastPlace r = q := by
  have hbound : r.value < (2 : ℚ) ^ ((f.precision : Int) + q) := h ▸ fits.value_lt
  obtain ⟨-, hmin, -, hcanonical⟩ := fits
  have hnum : 0 < r.num := Ratio.num_pos_of_value hden (by rw [h]; positivity)
  have hlog := Ratio.log2_lt hnum hden hbound
  unfold lastPlace
  rcases hcanonical with rfl | hfull
  · omega
  · have hle : (2 : ℚ) ^ ((f.precision : Int) - 1 + q) ≤ r.value := by
      rw [h, zpow_add₀ (by norm_num)]
      gcongr
      rw [show (f.precision : Int) - 1 = ((f.precision - 1 : Nat) : Int) by omega, zpow_natCast]
      exact_mod_cast hfull
    have heq := Ratio.log2_unique hnum hden hle (by
      rw [show (f.precision : Int) - 1 + q + 1 = (f.precision : Int) + q by omega]
      exact hbound)
    omega

theorem round_of_fits {r : Ratio} (hden : 0 < r.den) {m : Nat} {q : Int} (hm : 0 < m)
    (fits : f.Fits m q) (hprecision : 0 < f.precision) (h : r.value = m * (2 : ℚ) ^ q) :
    f.round negative r = .finite negative m q fits := by
  have hplace := lastPlace_of_fits hden hm fits hprecision h
  have hnum : 0 < r.num := Ratio.num_pos_of_value hden (by rw [h]; positivity)
  have hnearest : (r.inUnits q).nearest = m := by
    refine Ratio.nearest_of_integer (Ratio.inUnits_den_pos hden q) ?_
    rw [Ratio.value_inUnits hden, h]
    field_simp
  have hne : m ≠ Nat.pow 2 f.precision := by
    have hlt := fits.1
    omega
  unfold round
  rw [if_neg hnum.ne']
  dsimp only
  rw [hplace, hnearest, if_neg hne, Binary.ofParts, dif_pos fits]

end Format

end ProgramTrees
