import Mathlib.Data.Nat.Cast.Field
import Mathlib.Tactic.FieldSimp
import SignalPool.Proofs.DecimalRange

namespace SignalPool

namespace Decimal

def rounded (num den : Nat) (e : Int) : Decimal :=
  carry false (Rounding.halfEven num (den * 10 ^ (digitCount (num / den) - precision)))
    (e + (digitCount (num / den) - precision : Nat))

theorem negative_rounded (num den : Nat) (e : Int) : (rounded num den e).negative = false :=
  negative_carry _ _

theorem lt_pow_digitCount {num den : Nat} (hden : 0 < den) (e : Int) :
    (num : ℚ) / den * 10 ^ e < 10 ^ (digitCount (num / den) + e) := by
  have hfloor : num / den < 10 ^ digitCount (num / den) := digitCount_le_iff.mp le_rfl
  have hlt : (num : ℚ) / den < 10 ^ digitCount (num / den) := by
    rw [div_lt_iff₀ (by exact_mod_cast hden)]
    exact_mod_cast (Nat.div_lt_iff_lt_mul hden).mp hfloor
  rw [zpow_add₀ (by norm_num), zpow_natCast]
  exact mul_lt_mul_of_pos_right hlt (zpow_pos (by norm_num) _)

/-- The last place in range matters only to numbers that are too near zero. -/
theorem round_eq_checked {num den : Nat} (hden : 0 < den) {e : Int} (hnum : num ≠ 0)
    (hleast : 10 ^ (-mostLead : Int) ≤ (num : ℚ) / den * 10 ^ e) :
    round false num den e = (rounded num den e).checked := by
  have hcount := hleast.trans_lt (lt_pow_digitCount hden e)
  rw [zpow_lt_zpow_iff_right₀ (by norm_num), mostLead] at hcount
  have hexcess : max (digitCount (num / den) - precision) (-mostPlaces - e).toNat =
      digitCount (num / den) - precision := by
    rw [precision, mostPlaces]
    omega
  rw [round, if_neg hnum, hexcess]
  rfl

theorem rounded_of_short {num den : Nat} (hden : 0 < den) (e : Int) (hdvd : den ∣ num)
    (hshort : num / den < 10 ^ precision) : rounded num den e = ⟨false, num / den, e⟩ := by
  have hexcess : digitCount (num / den) - precision = 0 :=
    Nat.sub_eq_zero_of_le (digitCount_le_iff.mpr hshort)
  have hwhole : Rounding.halfEven num den = num / den :=
    Rounding.halfEven_of_dvd hden (Nat.mod_eq_zero_of_dvd hdvd)
  rw [rounded, hexcess, pow_zero, mul_one, hwhole, carry_of_lt hshort, Nat.cast_zero, add_zero]

theorem le_quotient_lt {num den : Nat} (hlarge : 10 ^ (precision - 1) ≤ num / den) {k : Nat}
    (hk : k = digitCount (num / den) - precision) :
    10 ^ (precision - 1) ≤ num / (den * 10 ^ k) ∧ num / (den * 10 ^ k) < 10 ^ precision := by
  have hcount : precision - 1 < digitCount (num / den) := lt_digitCount_iff.mpr hlarge
  have hprecision : precision = 28 := rfl
  have hlo : 10 ^ (precision - 1 + k) ≤ num / den := lt_digitCount_iff.mp (by omega)
  have hhi : num / den < 10 ^ (precision + k) := digitCount_le_iff.mp (by omega)
  rw [← Nat.div_div_eq_div_mul]
  constructor
  · rw [Nat.le_div_iff_mul_le (by positivity), ← pow_add]
    exact hlo
  · rw [Nat.div_lt_iff_lt_mul (by positivity), ← pow_add]
    exact hhi

theorem rounded_rounds {num den : Nat} (hden : 0 < den) (e : Int)
    (h : den ∣ num ∨ 10 ^ (precision - 1) ≤ num / den) :
    (rounded num den e).Rounds (num / den * 10 ^ e) := by
  obtain hsmall | hlarge := lt_or_ge (num / den) (10 ^ (precision - 1))
  · have hdvd : den ∣ num := h.resolve_right (not_le.mpr hsmall)
    have hshort : num / den < 10 ^ precision :=
      hsmall.trans (Nat.pow_lt_pow_right (by decide) (by decide))
    have hvalue : (⟨false, num / den, e⟩ : Decimal).value = num / den * 10 ^ e := by
      rw [value_of_nonneg rfl, Nat.cast_div hdvd (Nat.cast_ne_zero.mpr hden.ne')]
    rw [rounded_of_short hden e hdvd hshort, ← hvalue]
    exact rounds_value hshort
  · obtain ⟨k, hk⟩ : ∃ k, k = digitCount (num / den) - precision := ⟨_, rfl⟩
    obtain ⟨hleast, hmost⟩ := le_quotient_lt hlarge hk
    have hunit : 0 < den * 10 ^ k := by positivity
    have hscale : (num : ℚ) / den * 10 ^ e = num / (den * 10 ^ k : Nat) * 10 ^ (e + k) := by
      rw [zpow_add₀ (by norm_num), zpow_natCast]
      push_cast
      field_simp
    rw [hscale, rounded, ← hk]
    refine rounds_of_near (c := (Rounding.halfEven num (den * 10 ^ k) : Nat)) (short_carry ?_ _)
      ?_ ?_ ?_ fun htie => ⟨le_coefficient_carry ?_ _, coefficient_carry_even ?_ _⟩
    · exact (Rounding.halfEven_ge _ _).trans hmost
    · rw [value_carry, Int.cast_natCast]
    · rw [le_div_iff₀ (by exact_mod_cast hunit)]
      exact_mod_cast (Nat.le_div_iff_mul_le hunit).mp hleast
    · rw [Int.cast_natCast]
      exact Rounding.abs_halfEven_sub_le num hunit
    · exact hleast.trans (Rounding.halfEven_le _ _)
    · rw [Int.cast_natCast] at htie
      exact Rounding.halfEven_even hunit htie

theorem round_answers {num den : Nat} (hden : 0 < den) (e : Int)
    (h : den ∣ num ∨ 10 ^ (precision - 1) ≤ num / den)
    (hleast : num = 0 ∨ 10 ^ (-mostLead : Int) ≤ (num : ℚ) / den * 10 ^ e) :
    Answers (round false num den e) (num / den * 10 ^ e) := by
  by_cases hnum : num = 0
  · rw [round, if_pos hnum, hnum, Nat.cast_zero, zero_div, zero_mul]
    exact answers_zero e
  · have hpow := hleast.resolve_left hnum
    rw [round_eq_checked hden hnum hpow]
    exact answers_checked (rounded_rounds hden e h) (negative_rounded num den e)
      ((zpow_pos (by norm_num) _).trans_le hpow)

theorem ofInt_natCast (n : Nat) : ofInt n = ⟨false, n, 0⟩ := by simp [ofInt]

theorem value_ofInt (n : Nat) : (ofInt n).value = n := by
  rw [ofInt_natCast, value_of_nonneg rfl, zpow_zero, mul_one]

theorem pow_neg_mostLead_le : (10 : ℚ) ^ (-mostLead : Int) ≤ 1 :=
  zpow_le_one_of_nonpos₀ (by norm_num) (by omega)

theorem mul_answers (a b : Nat) : Answers ((ofInt a).mul (ofInt b)) (a * b) := by
  have hleast : a * b = 0 ∨
      (10 : ℚ) ^ (-mostLead : Int) ≤ (a * b : Nat) / (1 : Nat) * 10 ^ (0 : Int) := by
    refine (Nat.eq_zero_or_pos (a * b)).imp_right fun hpos => ?_
    rw [Nat.cast_one, div_one, zpow_zero, mul_one]
    exact pow_neg_mostLead_le.trans (by exact_mod_cast hpos)
  have h := round_answers one_pos 0 (.inl (one_dvd (a * b))) hleast
  rw [Nat.cast_mul, Nat.cast_one, div_one, zpow_zero, mul_one] at h
  rw [ofInt_natCast, ofInt_natCast]
  exact h

/-- What is left when zeros are dropped is the same number, and is rounded once. -/
theorem round_dropZeros_answers (limit n : Nat) (e : Int)
    (hleast : 10 ^ (-mostLead : Int) ≤ (n : ℚ) * 10 ^ e) :
    Answers (round false (dropZeros limit n).1 1 (e + (dropZeros limit n).2)) (n * 10 ^ e) := by
  have hn : ((dropZeros limit n).1 : ℚ) * 10 ^ (dropZeros limit n).2 = n := by
    exact_mod_cast dropZeros_mul limit n
  have hvalue : ((dropZeros limit n).1 : ℚ) / (1 : Nat) * 10 ^ (e + (dropZeros limit n).2) =
      n * 10 ^ e := by
    rw [zpow_add₀ (by norm_num), zpow_natCast, ← hn]
    push_cast
    ring
  rw [← hvalue] at hleast ⊢
  exact round_answers one_pos _ (.inl (one_dvd _)) (.inr hleast)

theorem scaled_quotient (a b : Nat) (e shift : Int) :
    ((a * 10 ^ shift.toNat : Nat) : ℚ) / (b * 10 ^ (-shift).toNat : Nat) * 10 ^ (e - shift) =
      a / b * 10 ^ e := by
  have hpow : (10 : ℚ) ^ shift.toNat = 10 ^ (-shift).toNat * 10 ^ shift := by
    rw [← zpow_natCast, ← zpow_natCast, ← zpow_add₀ (by norm_num)]
    congr 1
    omega
  push_cast
  rw [hpow, zpow_sub₀ (by norm_num)]
  field_simp

theorem le_scaled_quotient {a b : Nat} (ha : a ≠ 0) (hb : b ≠ 0) {shift : Int}
    (hshift : shift = digitCount b - digitCount a + precision + 1) :
    10 ^ (precision - 1) ≤ a * 10 ^ shift.toNat / (b * 10 ^ (-shift).toNat) := by
  have hpos : 0 < digitCount a := lt_digitCount_iff.mpr (Nat.pos_of_ne_zero ha)
  have hleast : 10 ^ (digitCount a - 1) ≤ a := lt_digitCount_iff.mp (by omega)
  have hmost : b < 10 ^ digitCount b := digitCount_le_iff.mp le_rfl
  rw [Nat.le_div_iff_mul_le (by positivity)]
  calc 10 ^ (precision - 1) * (b * 10 ^ (-shift).toNat)
      ≤ 10 ^ (precision - 1) * (10 ^ digitCount b * 10 ^ (-shift).toNat) := by gcongr
    _ = 10 ^ (precision - 1 + digitCount b + (-shift).toNat) := by
        rw [pow_add, pow_add, mul_assoc]
    _ ≤ 10 ^ (digitCount a - 1 + shift.toNat) := Nat.pow_le_pow_right (by decide) (by omega)
    _ = 10 ^ (digitCount a - 1) * 10 ^ shift.toNat := pow_add _ _ _
    _ ≤ a * 10 ^ shift.toNat := by gcongr

variable {x y : Decimal}

theorem div_of_zero (hx : x.negative = false) (hy : y.negative = false) (hx0 : x.coefficient = 0)
    (hy0 : y.coefficient ≠ 0) : x.div y = .ok (zero false (x.exponent - y.exponent)) := by
  simp [div, hx0, hy0, hx, hy]

theorem div_of_ne_zero (hx : x.negative = false) (hy : y.negative = false)
    (hx0 : x.coefficient ≠ 0) (hy0 : y.coefficient ≠ 0) {shift : Int}
    (hshift : shift = digitCount y.coefficient - digitCount x.coefficient + precision + 1)
    {num den : Nat} (hnum : num = x.coefficient * 10 ^ shift.toNat)
    (hden : den = y.coefficient * 10 ^ (-shift).toNat) :
    x.div y = if num % den = 0 then
        round false (dropZeros shift.toNat (num / den)).1 1
          (x.exponent - y.exponent - shift + (dropZeros shift.toNat (num / den)).2)
      else round false num den (x.exponent - y.exponent - shift) := by
  subst hnum hden
  simp only [div, if_neg hx0, if_neg hy0, ← hshift, Nat.pow_eq, hx, hy, bne_self_eq_false]

/-- The dividend is scaled to more digits than fit, so that a quotient is rounded only once. -/
theorem div_answers (hx : x.negative = false) (hy : y.negative = false)
    (hy0 : y.coefficient ≠ 0)
    (hleast : x.coefficient = 0 ∨ 10 ^ (-mostLead : Int) ≤ x.value / y.value) :
    Answers (x.div y) (x.value / y.value) := by
  by_cases hx0 : x.coefficient = 0
  · have hzero : x.value = 0 := by simp [value, hx0]
    rw [div_of_zero hx hy hx0 hy0, hzero, zero_div]
    exact answers_zero _
  · have hpow := hleast.resolve_left hx0
    have hq : x.value / y.value =
        x.coefficient / y.coefficient * 10 ^ (x.exponent - y.exponent) := by
      rw [value_of_nonneg hx, value_of_nonneg hy, zpow_sub₀ (by norm_num)]
      field_simp
    obtain ⟨shift, hshift⟩ : ∃ shift : Int,
        shift = digitCount y.coefficient - digitCount x.coefficient + precision + 1 := ⟨_, rfl⟩
    obtain ⟨num, hnum⟩ : ∃ num, num = x.coefficient * 10 ^ shift.toNat := ⟨_, rfl⟩
    obtain ⟨den, hden⟩ : ∃ den, den = y.coefficient * 10 ^ (-shift).toNat := ⟨_, rfl⟩
    have hpos : 0 < den := hden ▸ by positivity
    have hlarge : 10 ^ (precision - 1) ≤ num / den := by
      rw [hnum, hden]
      exact le_scaled_quotient hx0 hy0 hshift
    rw [hq, ← scaled_quotient _ _ _ shift, ← hnum, ← hden] at hpow ⊢
    rw [div_of_ne_zero hx hy hx0 hy0 hshift hnum hden]
    split_ifs with hwhole
    · rw [← Nat.cast_div (Nat.dvd_of_mod_eq_zero hwhole) (Nat.cast_ne_zero.mpr hpos.ne')] at hpow ⊢
      exact round_dropZeros_answers _ _ _ hpow
    · exact round_answers hpos _ (.inr hlarge) (.inr hpow)

theorem tenTo_eq {d : Nat} (hd : d ≤ mostLead) : ∃ unit : Decimal, tenTo d = .ok unit ∧
    unit.negative = false ∧ unit.coefficient ≠ 0 ∧ unit.value = 10 ^ d := by
  have hfits : ¬mostLead < d := not_lt.mpr hd
  by_cases hshort : d < precision
  · refine ⟨⟨false, 10 ^ d, 0⟩, ?_, rfl, (Nat.pow_pos (by decide)).ne', ?_⟩
    · exact (if_neg hfits).trans (if_pos hshort)
    · rw [value_of_nonneg rfl, zpow_zero, mul_one, Nat.cast_pow, Nat.cast_ofNat]
  · refine ⟨⟨false, 10 ^ (precision - 1), (d - (precision - 1) : Nat)⟩, ?_, rfl,
      (Nat.pow_pos (by decide)).ne', ?_⟩
    · exact (if_neg hfits).trans (if_neg hshort)
    · have hsum : precision - 1 + (d - (precision - 1)) = d := by omega
      rw [value_of_nonneg rfl, zpow_natCast, Nat.cast_pow, Nat.cast_ofNat, ← pow_add, hsum]

end Decimal

end SignalPool
