import ProgramTrees.Proofs.RoundingOrder

namespace ProgramTrees

namespace Decimal

variable {f : Format} {negative : Bool} {d e : Decimal} {m : Nat} {q : Int}

section Trim

theorem length_digits_pos (d : Decimal) : 0 < d.digits.length :=
  Nat.length_toDigits_pos

theorem length_digits_le {k : Nat} (hk : 0 < k) (h : d.coefficient < 10 ^ k) :
    d.digits.length ≤ k :=
  (Nat.length_toDigits_le_iff (by norm_num) hk).mpr h

theorem length_trim_le (d : Decimal) : d.trim.digits.length ≤ d.digits.length := by
  induction d using trim.induct with
  | case1 d h ih =>
    rw [trim, if_pos h]
    refine ih.trans (length_digits_le d.length_digits_pos ?_)
    have hlt := d.coefficient_lt
    exact (Nat.div_le_self _ _).trans_lt hlt
  | case2 d h => rw [trim, if_neg h]

theorem length_trim_le_of_le {k : Nat} (hk : 0 < k) (h : d.coefficient ≤ 10 ^ k) :
    d.trim.digits.length ≤ k := by
  rcases lt_or_eq_of_le h with hlt | heq
  · exact d.length_trim_le.trans (length_digits_le hk hlt)
  · obtain ⟨j, rfl⟩ : ∃ j, k = j + 1 := ⟨k - 1, by omega⟩
    have hmultiple : d.coefficient ≠ 0 ∧ d.coefficient % 10 = 0 := by
      rw [heq, pow_succ]
      have hpos : 0 < 10 ^ j := Nat.pow_pos (by norm_num)
      omega
    rw [trim, if_pos hmultiple]
    refine (length_trim_le _).trans (length_digits_le hk ?_)
    rw [heq, pow_succ]
    have hpos : 0 < 10 ^ j := Nat.pow_pos (by norm_num)
    dsimp only
    omega

theorem trim_last_digit (hd : d.coefficient ≠ 0) : d.trim.coefficient % 10 ≠ 0 := by
  induction d using trim.induct with
  | case1 d h ih =>
    rw [trim, if_pos h]
    have hrest : d.coefficient / 10 ≠ 0 := by omega
    exact ih hrest
  | case2 d h =>
    rw [trim, if_neg h]
    omega

theorem exponent_le_of_value_eq (hd : d.coefficient % 10 ≠ 0) (h : d.value = e.value) :
    e.exponent ≤ d.exponent := by
  by_contra hlt
  obtain ⟨k, hk⟩ : ∃ k : Nat, e.exponent = d.exponent + (k + 1 : Nat) :=
    ⟨(e.exponent - d.exponent - 1).toNat, by omega⟩
  have hpow : (10 : ℚ) ^ d.exponent ≠ 0 := by positivity
  have hcast : (d.coefficient : ℚ) = (e.coefficient * 10 ^ k * 10 : Nat) := by
    rw [value, value, hk, zpow_add₀ (by norm_num), zpow_natCast, pow_succ] at h
    rw [← mul_left_inj' hpow, h]
    push_cast
    ring
  have hmultiple : d.coefficient = e.coefficient * 10 ^ k * 10 := by exact_mod_cast hcast
  omega

theorem trim_congr (hd : d.coefficient ≠ 0) (h : d.value = e.value) : d.trim = e.trim := by
  have he : e.coefficient ≠ 0 := by rwa [Ne, ← value_eq_zero, ← h, value_eq_zero]
  have hvalue : d.trim.value = e.trim.value := by rw [value_trim, value_trim, h]
  have hexponent : d.trim.exponent = e.trim.exponent :=
    le_antisymm (exponent_le_of_value_eq (trim_last_digit he) hvalue.symm)
      (exponent_le_of_value_eq (trim_last_digit hd) hvalue)
  have hcoefficient : d.trim.coefficient = e.trim.coefficient := by
    have hpow : (10 : ℚ) ^ e.trim.exponent ≠ 0 := by positivity
    rw [value, value, hexponent, mul_left_inj' hpow] at hvalue
    exact_mod_cast hvalue
  calc d.trim = ⟨d.trim.coefficient, d.trim.exponent⟩ := rfl
    _ = ⟨e.trim.coefficient, e.trim.exponent⟩ := by rw [hcoefficient, hexponent]

end Trim

section Neighbours

variable {drop : Nat}

theorem value_cut_le (d : Decimal) (drop : Nat) : (d.cut drop).value ≤ d.value := by
  have hmul : d.coefficient / 10 ^ drop * 10 ^ drop ≤ d.coefficient := Nat.div_mul_le_self _ _
  have hcast : ((d.coefficient / 10 ^ drop : Nat) : ℚ) * 10 ^ drop ≤ d.coefficient := by
    exact_mod_cast hmul
  rw [value, value, cut, Nat.pow_eq, zpow_add₀ (by norm_num), zpow_natCast]
  calc ((d.coefficient / 10 ^ drop : Nat) : ℚ) * (10 ^ d.exponent * 10 ^ drop)
      = ((d.coefficient / 10 ^ drop : Nat) : ℚ) * 10 ^ drop * 10 ^ d.exponent := by ring
    _ ≤ d.coefficient * 10 ^ d.exponent := by gcongr

theorem sub_value_cut (d : Decimal) (drop : Nat) :
    d.value - (d.cut drop).value = (d.coefficient % 10 ^ drop : Nat) * (10 : ℚ) ^ d.exponent := by
  have hsplit : (d.coefficient : ℚ) =
      10 ^ drop * (d.coefficient / 10 ^ drop : Nat) + (d.coefficient % 10 ^ drop : Nat) := by
    exact_mod_cast (Nat.div_add_mod d.coefficient (10 ^ drop)).symm
  rw [value, value, cut, Nat.pow_eq, zpow_add₀ (by norm_num), zpow_natCast]
  dsimp only
  rw [sub_eq_iff_eq_add]
  nth_rewrite 1 [hsplit]
  ring

theorem value_next_cut_sub (d : Decimal) (drop : Nat) :
    (d.cut drop).next.value - d.value =
      ((10 ^ drop : Nat) - (d.coefficient % 10 ^ drop : Nat)) * (10 : ℚ) ^ d.exponent := by
  have hstep : (d.cut drop).next.value = (d.cut drop).value + 10 ^ drop * 10 ^ d.exponent := by
    rw [value, value, next, cut, zpow_add₀ (by norm_num), zpow_natCast]
    push_cast
    ring
  have hcut := sub_value_cut d drop
  rw [hstep]
  push_cast at hcut ⊢
  linarith

theorem next_cut_above (d : Decimal) (drop : Nat) : d.value < (d.cut drop).next.value := by
  have hmod : d.coefficient % 10 ^ drop < 10 ^ drop := Nat.mod_lt _ (Nat.pow_pos (by norm_num))
  have hrest : (0 : ℚ) < (10 ^ drop : Nat) - (d.coefficient % 10 ^ drop : Nat) := by
    rw [sub_pos]
    exact_mod_cast hmod
  have hdistance := value_next_cut_sub d drop
  have hpositive : (0 : ℚ) <
      ((10 ^ drop : Nat) - (d.coefficient % 10 ^ drop : Nat)) * (10 : ℚ) ^ d.exponent := by
    positivity
  linarith

theorem pow_le_value_cut (hd : d.coefficient ≠ 0) (hdrop : drop < d.digits.length) :
    (10 : ℚ) ^ (d.point - 1) ≤ (d.cut drop).value := by
  have hcoefficient : 10 ^ (d.digits.length - 1 - drop) ≤ d.coefficient / 10 ^ drop := by
    rw [Nat.le_div_iff_mul_le (Nat.pow_pos (by norm_num)), ← pow_add]
    have hfirst := pow_le_coefficient hd
    rwa [show d.digits.length - 1 - drop + drop = d.digits.length - 1 by omega]
  have hcast : (10 : ℚ) ^ (d.digits.length - 1 - drop) ≤ (d.coefficient / 10 ^ drop : Nat) := by
    exact_mod_cast hcoefficient
  have hpoint : d.point - 1 = ((d.digits.length - 1 - drop : Nat) : Int) + (d.exponent + drop) := by
    unfold point
    omega
  rw [hpoint, zpow_add₀ (by norm_num), zpow_natCast, value, cut, Nat.pow_eq]
  dsimp only
  gcongr

/-- A decimal with at most as many digits as are left is no nearer than the neighbour on its side:
it lies on the grid of the neighbours, or below the power of ten that all of them reach. -/
theorem outside_neighbours (hd : d.coefficient ≠ 0)
    (hlength : e.digits.length + drop ≤ d.digits.length) :
    e.value ≤ (d.cut drop).value ∨ (d.cut drop).next.value ≤ e.value := by
  have he := e.length_digits_pos
  rcases Int.lt_or_le e.exponent (d.exponent + drop) with hfine | hgrid
  · refine .inl (le_trans (le_of_lt ?_) (pow_le_value_cut hd (by omega)))
    calc e.value < 10 ^ e.digits.length * 10 ^ e.exponent := by
          have hcoefficient : (e.coefficient : ℚ) < 10 ^ e.digits.length := by
            exact_mod_cast e.coefficient_lt
          unfold value
          gcongr
      _ = 10 ^ (e.digits.length + e.exponent) := by
          rw [zpow_add₀ (by norm_num), zpow_natCast]
      _ ≤ 10 ^ (d.point - 1) := by
          refine zpow_le_zpow_right₀ (by norm_num) ?_
          unfold point
          omega
  · obtain ⟨k, hk⟩ := Int.exists_add_of_le hgrid
    have hvalue : e.value = (e.coefficient * 10 ^ k : Nat) * 10 ^ (d.exponent + drop) := by
      rw [value, hk, zpow_add₀ (by norm_num) (d.exponent + drop), zpow_natCast]
      push_cast
      ring
    have hpow : (0 : ℚ) < 10 ^ (d.exponent + drop) := by positivity
    rcases Nat.lt_or_ge (d.cut drop).coefficient (e.coefficient * 10 ^ k) with hmore | hless
    · refine .inr ?_
      have hcast : (((d.cut drop).coefficient + 1 : Nat) : ℚ) ≤ (e.coefficient * 10 ^ k : Nat) := by
        exact_mod_cast hmore
      rw [hvalue]
      exact mul_le_mul_of_nonneg_right hcast hpow.le
    · refine .inl ?_
      have hcast : ((e.coefficient * 10 ^ k : Nat) : ℚ) ≤ ((d.cut drop).coefficient : Nat) := by
        exact_mod_cast hless
      rw [hvalue]
      exact mul_le_mul_of_nonneg_right hcast hpow.le

theorem cutsDown_nearer (d : Decimal) (drop : Nat) :
    if d.cutsDown drop then d.value - (d.cut drop).value ≤ (d.cut drop).next.value - d.value
    else (d.cut drop).next.value - d.value ≤ d.value - (d.cut drop).value := by
  have hpow : (0 : ℚ) < 10 ^ d.exponent := by positivity
  rw [sub_value_cut, value_next_cut_sub, mul_le_mul_iff_left₀ hpow, mul_le_mul_iff_left₀ hpow]
  unfold cutsDown
  dsimp only
  rw [Nat.pow_eq]
  split
  next h =>
    have hle : 2 * (d.coefficient % 10 ^ drop) ≤ 10 ^ drop := by
      simp only [Bool.or_eq_true, Bool.and_eq_true, decide_eq_true_eq, beq_iff_eq] at h
      omega
    have hcast : (2 : ℚ) * (d.coefficient % 10 ^ drop : Nat) ≤ (10 ^ drop : Nat) := by
      exact_mod_cast hle
    linarith
  next h =>
    have hle : 10 ^ drop ≤ 2 * (d.coefficient % 10 ^ drop) := by
      simp only [Bool.or_eq_true, decide_eq_true_eq, not_or, not_lt] at h
      exact h.1
    have hcast : ((10 ^ drop : Nat) : ℚ) ≤ 2 * (d.coefficient % 10 ^ drop : Nat) := by
      exact_mod_cast hle
    linarith

end Neighbours

section Search

variable {accept : Decimal → Bool} {c : Decimal} {drop : Nat}

/-- A decimal lies beyond one of the two neighbours, and that neighbour has the property. -/
def BeyondAccepted (accept : Decimal → Bool) (d : Decimal) (drop : Nat) (c : Decimal) : Prop :=
  c.value ≤ (d.cut drop).value ∧ accept (d.cut drop) = true ∨
    (d.cut drop).next.value ≤ c.value ∧ accept (d.cut drop).next = true

theorem neighbour?_ne_none (h : d.BeyondAccepted accept drop c) :
    d.neighbour? accept drop ≠ none := by
  unfold neighbour?
  dsimp only
  rcases h with ⟨-, h⟩ | ⟨-, h⟩
  · cases accept (d.cut drop).next <;> simp [h]
  · cases accept (d.cut drop) <;> simp [h]

theorem neighbour?_eq_some (h : d.neighbour? accept drop = some e) :
    e = d.cut drop ∨ e = (d.cut drop).next := by
  unfold neighbour? at h
  dsimp only at h
  split at h
  next =>
    obtain rfl := Option.some.inj h
    split
    next => exact .inl rfl
    next => exact .inr rfl
  next => exact .inl (Option.some.inj h).symm
  next => exact .inr (Option.some.inj h).symm
  next => exact nomatch h

theorem coefficient_neighbour_le (h : d.neighbour? accept drop = some e)
    (hdrop : drop ≤ d.digits.length) : e.coefficient ≤ 10 ^ (d.digits.length - drop) := by
  have hcut : (d.cut drop).coefficient < 10 ^ (d.digits.length - drop) := by
    refine (Nat.div_lt_iff_lt_mul (Nat.pow_pos (by norm_num))).mpr ?_
    rw [← pow_add, Nat.sub_add_cancel hdrop]
    exact d.coefficient_lt
  rcases neighbour?_eq_some h with rfl | rfl
  · exact hcut.le
  · exact hcut

theorem neighbour?_nearest (h : d.neighbour? accept drop = some e)
    (hc : d.BeyondAccepted accept drop c) : |e.value - d.value| ≤ |c.value - d.value| := by
  have hcut := d.value_cut_le drop
  have hnext := d.next_cut_above drop
  have hnearer := d.cutsDown_nearer drop
  have hbelow : |(d.cut drop).value - d.value| = d.value - (d.cut drop).value := by
    rw [abs_sub_comm, abs_of_nonneg (by linarith)]
  have habove : |(d.cut drop).next.value - d.value| = (d.cut drop).next.value - d.value :=
    abs_of_nonneg (by linarith)
  have hside : c.value ≤ (d.cut drop).value ∧
        d.value - (d.cut drop).value ≤ |c.value - d.value| ∨
      (d.cut drop).next.value ≤ c.value ∧
        (d.cut drop).next.value - d.value ≤ |c.value - d.value| := by
    rcases hc with ⟨hle, -⟩ | ⟨hle, -⟩
    · refine .inl ⟨hle, ?_⟩
      rw [abs_sub_comm]
      exact le_trans (by linarith) (le_abs_self _)
    · exact .inr ⟨hle, le_trans (by linarith) (le_abs_self _)⟩
  unfold neighbour? at h
  dsimp only at h
  split at h
  next =>
    obtain rfl := Option.some.inj h
    split
    next hdown =>
      rw [if_pos hdown] at hnearer
      rcases hside with ⟨-, hle⟩ | ⟨-, hle⟩ <;> linarith
    next hup =>
      rw [if_neg hup] at hnearer
      rcases hside with ⟨-, hle⟩ | ⟨-, hle⟩ <;> linarith
  next _ hup =>
    obtain rfl := Option.some.inj h
    rcases hc with ⟨hle, -⟩ | ⟨-, hup'⟩
    · rcases hside with ⟨-, hdistance⟩ | ⟨hle', -⟩ <;> linarith
    · exact absurd (hup.symm.trans hup') (by decide)
  next hdown _ =>
    obtain rfl := Option.some.inj h
    rcases hc with ⟨-, hdown'⟩ | ⟨hle, -⟩
    · exact absurd (hdown.symm.trans hdown') (by decide)
    · rcases hside with ⟨hle', -⟩ | ⟨-, hdistance⟩ <;> linarith
  next => exact nomatch h

/-- The search ends at the greatest number of dropped digits that leaves a neighbour with the
property, and without one at the decimal itself. -/
theorem shorten_cases (accept : Decimal → Bool) (d : Decimal) (most : Nat) :
    (∃ drop, 0 < drop ∧ drop ≤ most ∧ d.neighbour? accept drop = some (d.shorten accept most) ∧
        ∀ more, drop < more → more ≤ most → d.neighbour? accept more = none) ∨
      d.shorten accept most = d ∧
        ∀ more, 0 < more → more ≤ most → d.neighbour? accept more = none := by
  induction most with
  | zero => exact .inr ⟨rfl, fun more hpos hle => absurd hle (by omega)⟩
  | succ most ih =>
    rw [shorten]
    cases hnext : d.neighbour? accept (most + 1) with
    | some e => exact .inl ⟨most + 1, by omega, le_rfl, hnext, fun more hlt hle => by omega⟩
    | none =>
      have hstep {more : Nat} (hle : more ≤ most + 1)
          (hbelow : more ≤ most → d.neighbour? accept more = none) :
          d.neighbour? accept more = none := by
        rcases Nat.lt_or_ge most more with hlt | hge
        · rwa [show more = most + 1 by omega]
        · exact hbelow hge
      rcases ih with ⟨drop, hpos, hle, hsome, hnone⟩ | ⟨hself, hnone⟩
      · exact .inl ⟨drop, hpos, by omega, hsome,
          fun more hlt hmore => hstep hmore (hnone more hlt)⟩
      · exact .inr ⟨hself, fun more hlt hmore => hstep hmore (hnone more hlt)⟩

end Search

section Shortest

variable (holds : f.HoldsIntegers) (fits : f.Fits m q)
include holds

/-- Whatever is rounded to the number lies beyond a neighbour that is rounded to it, if it has so
few digits. -/
theorem beyond_accepted (hm : 0 < m) (drop : Nat)
    (he : e.round f false = .finite false m q fits)
    (hlength : e.digits.length + drop ≤ (ofParts m q).digits.length) :
    (ofParts m q).BeyondAccepted (fun d => decide (d.round f false = .ofParts f false m q))
      drop e := by
  have hexact : (ofParts m q).round f false = .finite false m q fits :=
    round_ofParts holds.usual hm fits
  have hnumber : Binary.ofParts f false m q = .finite false m q fits := by
    rw [Binary.ofParts, dif_pos fits]
  have hcoefficient : (ofParts m q).coefficient ≠ 0 := by
    rw [Ne, ← value_eq_zero, value_ofParts]
    positivity
  have hcut := (ofParts m q).value_cut_le drop
  have hnext := ((ofParts m q).next_cut_above drop).le
  unfold BeyondAccepted
  rw [hnumber, decide_eq_true_iff, decide_eq_true_iff]
  rcases outside_neighbours hcoefficient hlength with hle | hle
  · exact .inl ⟨hle, round_between holds hle hcut he hexact⟩
  · exact .inr ⟨hle, round_between holds hnext hle hexact he⟩

/-- The decimal that is written for a number has the fewest digits of all that are rounded to the
number, and of those with as few it is the nearest. -/
theorem shortest_spec (hm : 0 < m) (he : e.round f negative = .finite negative m q fits) :
    (shortest f m q).digits.length ≤ e.digits.length ∧
      (e.digits.length ≤ (shortest f m q).digits.length →
        |(shortest f m q).value - m * 2 ^ q| ≤ |e.value - m * 2 ^ q|) := by
  have he := (round_eq_iff_unsigned holds).mp he
  have hpos := e.length_digits_pos
  rw [← value_ofParts]
  unfold shortest
  dsimp only
  rw [value_trim]
  -- dropping all digits that the other decimal lacks would leave a neighbour that is accepted
  have hfound : e.digits.length < (ofParts m q).digits.length →
      (ofParts m q).neighbour? (fun d => decide (d.round f false = .ofParts f false m q))
        ((ofParts m q).digits.length - e.digits.length) ≠ none :=
    fun hfewer => neighbour?_ne_none (beyond_accepted holds fits hm _ he (by omega))
  rcases shorten_cases (fun d => decide (d.round f false = .ofParts f false m q)) (ofParts m q)
      ((ofParts m q).digits.length - 1) with
    ⟨drop, hdrop, hmost, hsome, hnone⟩ | ⟨hself, hnone⟩
  · have htrim := length_trim_le_of_le (by omega) (coefficient_neighbour_le hsome (by omega))
    constructor
    · by_contra hfewer
      exact hfound (by omega) (hnone _ (by omega) (by omega))
    · intro hle
      exact neighbour?_nearest hsome (beyond_accepted holds fits hm _ he (by omega))
  · have htrim := (ofParts m q).length_trim_le
    rw [hself]
    constructor
    · by_contra hfewer
      exact hfound (by omega) (hnone _ (by omega) (by omega))
    · intro _
      rw [sub_self, abs_zero]
      exact abs_nonneg _

end Shortest

end Decimal

end ProgramTrees
