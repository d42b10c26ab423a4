import ProgramTrees.Proofs.Rounding
import ProgramTrees.Value

namespace ProgramTrees

namespace Ratio

variable {r : Ratio} {n : Nat}

/-- The nearest integer is at most one half away, and even at exactly one half. -/
theorem nearest_spec (hden : 0 < r.den) :
    (r.nearest : ℚ) - 1 / 2 ≤ r.value ∧ r.value ≤ r.nearest + 1 / 2 ∧
      (r.value = r.nearest + 1 / 2 → r.nearest % 2 = 0) := by
  have hden' : (0 : ℚ) < r.den := by exact_mod_cast hden
  have hvalue : r.value = (r.num / r.den : Nat) + (r.num % r.den : Nat) / (r.den : ℚ) := by
    have hsplit : (r.num : ℚ) = r.den * (r.num / r.den : Nat) + (r.num % r.den : Nat) := by
      exact_mod_cast (Nat.div_add_mod r.num r.den).symm
    rw [value, hsplit]
    field_simp
  have hbelow : (0 : ℚ) ≤ (r.num % r.den : Nat) / (r.den : ℚ) := by positivity
  unfold nearest
  dsimp only
  split
  next hless =>
    have hhalf : (r.num % r.den : Nat) / (r.den : ℚ) < 1 / 2 := by
      rw [div_lt_iff₀ hden']
      have : (2 : ℚ) * (r.num % r.den : Nat) < r.den := by exact_mod_cast hless
      linarith
    refine ⟨by linarith, by linarith, fun h => absurd h (by linarith)⟩
  next hless =>
    have hhalf : 1 / 2 ≤ (r.num % r.den : Nat) / (r.den : ℚ) := by
      rw [le_div_iff₀ hden']
      have : (r.den : ℚ) ≤ 2 * (r.num % r.den : Nat) := by exact_mod_cast not_lt.mp hless
      linarith
    have hone : (r.num % r.den : Nat) / (r.den : ℚ) < 1 := by
      rw [div_lt_one hden']
      exact_mod_cast Nat.mod_lt _ hden
    split
    next =>
      push_cast
      refine ⟨by linarith, by linarith, fun h => absurd h (by linarith)⟩
    next hmore =>
      have htie : (r.num % r.den : Nat) / (r.den : ℚ) = 1 / 2 := by
        refine le_antisymm ?_ hhalf
        rw [div_le_iff₀ hden']
        have : (2 : ℚ) * (r.num % r.den : Nat) ≤ r.den := by exact_mod_cast not_lt.mp hmore
        linarith
      rcases Nat.mod_two_eq_zero_or_one (r.num / r.den) with heven | hodd
      · rw [heven, Nat.add_zero]
        refine ⟨by linarith, by linarith, fun _ => heven⟩
      · rw [hodd]
        push_cast
        refine ⟨by linarith, by linarith, fun h => absurd h (by linarith)⟩

theorem le_nearest (hden : 0 < r.den) (h : (n : ℚ) ≤ r.value) : n ≤ r.nearest := by
  have hnear := (nearest_spec hden).2.1
  have hlt : (n : ℚ) < (r.nearest : ℚ) + 1 := by linarith
  exact Nat.lt_succ_iff.mp (by exact_mod_cast hlt)

theorem nearest_le (hden : 0 < r.den) (h : r.value < n + 1 / 2) : r.nearest ≤ n := by
  have hnear := (nearest_spec hden).1
  have hlt : (r.nearest : ℚ) < (n : ℚ) + 1 := by linarith
  exact Nat.lt_succ_iff.mp (by exact_mod_cast hlt)

theorem lt_nearest (hden : 0 < r.den) (hodd : n % 2 = 1) (h : n + 1 / 2 ≤ r.value) :
    n < r.nearest := by
  obtain ⟨-, hnear, heven⟩ := nearest_spec hden
  have hle : n ≤ r.nearest := le_nearest hden (by linarith)
  refine lt_of_le_of_ne hle fun heq => ?_
  subst heq
  have := heven (le_antisymm hnear h)
  omega

theorem value_integer (k : Nat) (q : Int) : (inUnits ⟨k, 1⟩ q).value = k / (2 : ℚ) ^ q := by
  rw [value_inUnits Nat.one_pos]
  simp [value]

end Ratio

namespace Format

variable {f : Format} {negative : Bool} {k m : Nat} {q : Int}

/-- The formats in which no integer is below the numbers of full precision. -/
structure HoldsIntegers (f : Format) : Prop where
  precision : 0 < f.precision
  minExponent : f.minExponent + f.precision ≤ 1
  maxExponent : 0 < f.maxExponent

theorem double_holdsIntegers : Format.double.HoldsIntegers :=
  ⟨by decide, by decide, by decide⟩

/-- Halfway between the greatest number of a format and the next power of two. -/
def limit (f : Format) : Nat :=
  (Nat.pow 2 (f.precision + 1) - 1) * Nat.pow 2 (f.maxExponent - 1).toNat

theorem limit_pos (f : Format) : 0 < f.limit := by
  have hpow : 1 < Nat.pow 2 (f.precision + 1) := Nat.one_lt_two_pow (by omega)
  exact Nat.mul_pos (by omega) (Nat.pow_pos (by decide))

theorem ofParts_infinite_iff (hle : Nat.pow 2 (f.precision - 1) ≤ m)
    (hlt : m < Nat.pow 2 f.precision) (hq : f.minExponent ≤ q) :
    (∃ b, Binary.ofParts f negative m q = .infinite b) ↔ f.maxExponent < q := by
  unfold Binary.ofParts
  split
  next fits =>
    have hmax := fits.2.2.1
    simpa using hmax
  next hfits =>
    refine iff_of_true ⟨negative, rfl⟩ ?_
    by_contra hsmall
    exact hfits ⟨hlt, hq, not_lt.mp hsmall, .inr hle⟩

namespace HoldsIntegers

variable (holds : f.HoldsIntegers)
include holds

theorem pow_precision : Nat.pow 2 f.precision = 2 * Nat.pow 2 (f.precision - 1) := by
  have := holds.precision
  rw [Nat.mul_comm]
  exact (congrArg (Nat.pow 2) (by omega : f.precision = f.precision - 1 + 1)).trans rfl

theorem limit_eq :
    (f.limit : ℚ) = ((Nat.pow 2 f.precision - 1 : Nat) + 1 / 2) * 2 ^ f.maxExponent := by
  have hmax := holds.maxExponent
  have hpow : ((Nat.pow 2 (f.maxExponent - 1).toNat : Nat) : ℚ) = 2 ^ (f.maxExponent - 1) := by
    rw [Nat.pow_eq, Nat.cast_pow, ← zpow_natCast, Int.toNat_of_nonneg (by omega)]
    rfl
  have hexponent : (2 : ℚ) ^ f.maxExponent = 2 * 2 ^ (f.maxExponent - 1) := by
    rw [← zpow_one_add₀ (by norm_num)]
    congr 1
    omega
  have hone : 1 ≤ Nat.pow 2 f.precision := Nat.one_le_two_pow
  have hdouble : Nat.pow 2 (f.precision + 1) = Nat.pow 2 f.precision * 2 := rfl
  rw [limit, Nat.cast_mul, hpow, hexponent, hdouble, Nat.cast_sub (by omega), Nat.cast_sub hone]
  push_cast
  ring

theorem limit_bounds :
    (Nat.pow 2 (f.precision - 1) : ℚ) * 2 ^ f.maxExponent ≤ f.limit ∧
      (f.limit : ℚ) ≤ Nat.pow 2 f.precision * 2 ^ f.maxExponent := by
  have hhalf : 1 ≤ Nat.pow 2 (f.precision - 1) := Nat.one_le_two_pow
  have hone : (1 : ℚ) ≤ Nat.pow 2 (f.precision - 1) := by exact_mod_cast hhalf
  have hdouble : (Nat.pow 2 f.precision : ℚ) = 2 * Nat.pow 2 (f.precision - 1) := by
    exact_mod_cast holds.pow_precision
  have hpos : 1 ≤ Nat.pow 2 f.precision := Nat.one_le_two_pow
  rw [holds.limit_eq, Nat.cast_sub hpos, Nat.cast_one]
  constructor
  · gcongr
    linarith
  · gcongr
    linarith

/-- Counted in last places of the greatest numbers, the limit is where rounding carries. -/
theorem carry_iff : Nat.pow 2 f.precision ≤ (Ratio.inUnits ⟨k, 1⟩ f.maxExponent).nearest ↔
    f.limit ≤ k := by
  have hdouble := holds.pow_precision
  have hhalf : 1 ≤ Nat.pow 2 (f.precision - 1) := Nat.one_le_two_pow
  have hlimit : f.limit ≤ k ↔ ((Nat.pow 2 f.precision - 1 : Nat) + 1 / 2 : ℚ) ≤
      (Ratio.inUnits ⟨k, 1⟩ f.maxExponent).value := by
    rw [Ratio.value_integer, le_div_iff₀ (by positivity), ← holds.limit_eq]
    exact_mod_cast Iff.rfl
  have hden := @Ratio.inUnits_den_pos ⟨k, 1⟩ Nat.one_pos f.maxExponent
  rw [hlimit]
  constructor
  · intro hcarry
    by_contra hless
    have := Ratio.nearest_le hden (not_le.mp hless)
    omega
  · intro hmore
    have := Ratio.lt_nearest hden (by omega) hmore
    omega

theorem place_of_integer (hk : 0 < k) :
    ∃ q, f.minExponent ≤ q ∧ f.lastPlace ⟨k, 1⟩ = q ∧
      (Nat.pow 2 (f.precision - 1) : ℚ) * 2 ^ q ≤ k ∧
      (k : ℚ) < (Nat.pow 2 f.precision : ℚ) * 2 ^ q := by
  have hprecision := holds.precision
  have hmin := holds.minExponent
  have hvalue : (⟨k, 1⟩ : Ratio).value = k := by simp [Ratio.value]
  obtain ⟨hle, hlt⟩ := Ratio.log2_spec (r := ⟨k, 1⟩) hk Nat.one_pos
  rw [hvalue] at hle hlt
  have hone : (1 : ℚ) ≤ k := by exact_mod_cast hk
  have hlog : 0 < (⟨k, 1⟩ : Ratio).log2 + 1 := by
    refine (zpow_lt_zpow_iff_right₀ (by norm_num : (1 : ℚ) < 2)).mp ?_
    simpa using hone.trans_lt hlt
  have hscale (p : Nat) (q : Int) : (Nat.pow 2 p : ℚ) * 2 ^ q = (2 : ℚ) ^ (p + q) := by
    rw [zpow_add₀ (by norm_num), zpow_natCast, Nat.pow_eq]
    norm_cast
  refine ⟨(⟨k, 1⟩ : Ratio).log2 - (f.precision - 1), by omega, ?_, ?_, ?_⟩
  · rw [lastPlace]
    omega
  · rw [hscale, Nat.cast_sub (by omega)]
    simpa using hle
  · rw [hscale, show (f.precision : Int) + ((⟨k, 1⟩ : Ratio).log2 - (f.precision - 1)) =
      (⟨k, 1⟩ : Ratio).log2 + 1 by omega]
    exact hlt

theorem round_infinite_iff_place (hk : 0 < k) (hmin : f.minExponent ≤ q)
    (hplace : f.lastPlace ⟨k, 1⟩ = q) (hle : (Nat.pow 2 (f.precision - 1) : ℚ) * 2 ^ q ≤ k)
    (hlt : (k : ℚ) < (Nat.pow 2 f.precision : ℚ) * 2 ^ q) :
    (∃ b, f.round negative ⟨k, 1⟩ = .infinite b) ↔
      f.maxExponent < q ∨
        q = f.maxExponent ∧ Nat.pow 2 f.precision ≤ (Ratio.inUnits ⟨k, 1⟩ q).nearest := by
  have hpow : (0 : ℚ) < 2 ^ q := by positivity
  have hden : 0 < (Ratio.inUnits ⟨k, 1⟩ q).den := Ratio.inUnits_den_pos Nat.one_pos q
  have hdouble := holds.pow_precision
  have hhalf : 1 ≤ Nat.pow 2 (f.precision - 1) := Nat.one_le_two_pow
  have hlower : Nat.pow 2 (f.precision - 1) ≤ (Ratio.inUnits ⟨k, 1⟩ q).nearest :=
    Ratio.le_nearest hden (by rwa [Ratio.value_integer, le_div_iff₀ hpow])
  have hupper : (Ratio.inUnits ⟨k, 1⟩ q).nearest ≤ Nat.pow 2 f.precision := by
    refine Ratio.nearest_le hden (lt_of_lt_of_le ?_ (le_add_of_nonneg_right (by norm_num)))
    rwa [Ratio.value_integer, div_lt_iff₀ hpow]
  rw [round, if_neg (Nat.ne_of_gt hk), hplace]
  dsimp only
  split
  next heq =>
    rw [heq, ofParts_infinite_iff le_rfl (by omega) (by omega)]
    omega
  next hne =>
    rw [ofParts_infinite_iff hlower (by omega) hmin]
    omega

/-- A positive integer is rounded to an infinite number from the limit on. -/
theorem round_infinite_iff (hk : 0 < k) :
    (∃ b, f.round negative ⟨k, 1⟩ = .infinite b) ↔ f.limit ≤ k := by
  obtain ⟨q, hmin, hplace, hle, hlt⟩ := holds.place_of_integer hk
  obtain ⟨hlower, hupper⟩ := holds.limit_bounds
  have hdouble : (Nat.pow 2 f.precision : ℚ) = 2 * Nat.pow 2 (f.precision - 1) := by
    exact_mod_cast holds.pow_precision
  have hstep (p q : Int) (hpq : p < q) : 2 * (2 : ℚ) ^ p ≤ 2 ^ q := by
    rw [← zpow_one_add₀ (by norm_num)]
    exact zpow_le_zpow_right₀ (by norm_num) (by omega)
  rw [holds.round_infinite_iff_place hk hmin hplace hle hlt]
  rcases lt_trichotomy q f.maxExponent with hq | rfl | hq
  · refine iff_of_false (by omega) (not_le.mpr ?_)
    have hless : (k : ℚ) < f.limit := by
      calc (k : ℚ) < Nat.pow 2 f.precision * 2 ^ q := hlt
        _ = Nat.pow 2 (f.precision - 1) * (2 * 2 ^ q) := by rw [hdouble]; ring
        _ ≤ Nat.pow 2 (f.precision - 1) * 2 ^ f.maxExponent := by gcongr; exact hstep _ _ hq
        _ ≤ f.limit := hlower
    exact_mod_cast hless
  · exact (or_iff_right (lt_irrefl _)).trans ((and_iff_right rfl).trans holds.carry_iff)
  · refine iff_of_true (.inl hq) ?_
    have hmore : (f.limit : ℚ) ≤ k := by
      calc (f.limit : ℚ) ≤ Nat.pow 2 f.precision * 2 ^ f.maxExponent := hupper
        _ = Nat.pow 2 (f.precision - 1) * (2 * 2 ^ f.maxExponent) := by rw [hdouble]; ring
        _ ≤ Nat.pow 2 (f.precision - 1) * 2 ^ q := by gcongr; exact hstep _ _ hq
        _ ≤ k := hle
    exact_mod_cast hmore

end HoldsIntegers

end Format

theorem doubleOfInt?_eq_some_iff {n : Int} {x : Double} :
    doubleOfInt? n = some x ↔ n.natAbs < Format.double.limit ∧ x = Format.double.ofInt n := by
  rcases Nat.eq_zero_or_pos n.natAbs with hzero | hpos
  · obtain rfl := Int.natAbs_eq_zero.mp hzero
    rw [show doubleOfInt? 0 = some (Format.double.ofInt 0) by decide]
    simp [Format.limit_pos, eq_comm]
  · have hinfinite : (∃ b, Format.double.round (n < 0) ⟨n.natAbs, 1⟩ = .infinite b) ↔
        Format.double.limit ≤ n.natAbs := Format.double_holdsIntegers.round_infinite_iff hpos
    rw [← not_le, ← hinfinite]
    unfold doubleOfInt? Format.ofInt
    split
    next b heq => simp [heq]
    next hne =>
      refine ⟨fun h => ⟨fun ⟨b, hb⟩ => hne b hb, (Option.some.inj h).symm⟩, fun h => ?_⟩
      rw [h.2]

theorem doubleOfInt?_eq_none_iff {n : Int} :
    doubleOfInt? n = none ↔ Format.double.limit ≤ n.natAbs := by
  rw [Option.eq_none_iff_forall_ne_some]
  constructor
  · intro h
    by_contra hless
    exact h _ (doubleOfInt?_eq_some_iff.mpr ⟨not_le.mp hless, rfl⟩)
  · intro hlimit x hx
    have := (doubleOfInt?_eq_some_iff.mp hx).1
    omega

end ProgramTrees
