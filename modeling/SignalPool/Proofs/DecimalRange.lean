import Mathlib.Data.Nat.Digits.Lemmas
import SignalPool.Proofs.Nearest

namespace SignalPool

namespace Radix

theorem lowDigits_eq {base k n : Nat} (hb : 2 ≤ base) (hn : n < 2 ^ k) :
    lowDigits base k n = Nat.digits base n := by
  induction k generalizing n with
  | zero =>
    have h : n = 0 := Nat.lt_one_iff.mp hn
    simp [lowDigits, h]
  | succ k ih =>
    by_cases h : n = 0
    · simp [lowDigits, h]
    · have hd : n / base < 2 ^ k := by
        have hle : n / base ≤ n / 2 := Nat.div_le_div_left hb (by decide)
        rw [pow_succ] at hn
        omega
      rw [lowDigits, if_neg h, Nat.digits_def' hb (Nat.pos_of_ne_zero h), ih hd]

theorem length_digits {base : Nat} (hb : 2 ≤ base) (n : Nat) :
    (digits base n).length = (Nat.digits base n).length := by
  rw [digits, List.length_reverse, lowDigits_eq hb Nat.lt_log2_self]

end Radix

namespace Decimal

theorem digitCount_le_iff {n k : Nat} : digitCount n ≤ k ↔ n < 10 ^ k := by
  rw [digitCount, Radix.length_digits (by decide), Nat.digits_length_le_iff (by decide)]

theorem lt_digitCount_iff {n k : Nat} : k < digitCount n ↔ 10 ^ k ≤ n := by
  rw [← not_le, digitCount_le_iff, not_lt]

variable {x : Decimal} {q : ℚ}

theorem lt_lead_iff (hx : x.negative = false) (hc : x.coefficient ≠ 0) (k : Int) :
    k < x.lead ↔ 10 ^ (k + 1) ≤ x.value := by
  have hunit : (0 : ℚ) < 10 ^ x.exponent := zpow_pos (by norm_num) _
  have hsplit : (10 : ℚ) ^ (k + 1) = 10 ^ (k + 1 - x.exponent) * 10 ^ x.exponent := by
    rw [← zpow_add₀ (by norm_num), sub_add_cancel]
  rw [value_of_nonneg hx, hsplit, mul_le_mul_iff_left₀ hunit, lead]
  obtain hneg | hnonneg := lt_or_ge (k + 1 - x.exponent) 0
  · refine iff_of_true (by omega) ?_
    have hone : (1 : ℚ) ≤ x.coefficient := by exact_mod_cast Nat.pos_of_ne_zero hc
    exact (zpow_le_one_of_nonpos₀ (by norm_num) hneg.le).trans hone
  · obtain ⟨n, hn⟩ := Int.eq_ofNat_of_zero_le hnonneg
    have hcast : (10 : ℚ) ^ n ≤ x.coefficient ↔ 10 ^ n ≤ x.coefficient := by norm_cast
    rw [hn, zpow_natCast, hcast, ← lt_digitCount_iff]
    omega

theorem exponent_eq (hx : x.negative = false) (hshort : x.Short)
    (hfull : 10 ^ (precision - 1) ≤ x.coefficient) {e : Int}
    (hlo : 10 ^ (precision - 1) * 10 ^ e ≤ x.value) (hhi : x.value < 10 ^ precision * 10 ^ e) :
    x.exponent = e := by
  have hlast : ((precision - 1 : Nat) : Int) = precision - 1 := rfl
  have hleast : (10 : ℚ) ^ (precision - 1) * 10 ^ x.exponent ≤ x.value := by
    rw [value_of_nonneg hx]
    refine mul_le_mul_of_nonneg_right ?_ (zpow_nonneg (by norm_num) _)
    exact_mod_cast hfull
  have habove := hleast.trans_lt hhi
  have hbelow := hlo.trans_lt hshort.value_lt
  rw [← zpow_natCast, ← zpow_natCast, ← zpow_add₀ (by norm_num), ← zpow_add₀ (by norm_num),
    zpow_lt_zpow_iff_right₀ (by norm_num)] at habove
  rw [← zpow_natCast, ← zpow_add₀ (by norm_num), zpow_lt_zpow_iff_right₀ (by norm_num)] at hbelow
  omega

theorem Short.value_le {y : Decimal} (hy : y.Short) {e : Int}
    (hlt : y.value < 10 ^ precision * 10 ^ e) : y.value ≤ (10 ^ precision - 1) * 10 ^ e := by
  have hunit : (0 : ℚ) < 10 ^ e := zpow_pos (by norm_num) _
  obtain ⟨k, hk⟩ | hless := hy.multiple_or_lt e
  · rw [hk, mul_lt_mul_iff_left₀ hunit] at hlt
    have hint : k < 10 ^ precision := by exact_mod_cast hlt
    have hcast : (k : ℚ) ≤ 10 ^ precision - 1 := by exact_mod_cast Int.le_sub_one_of_lt hint
    rw [hk]
    exact mul_le_mul_of_nonneg_right hcast hunit.le
  · have hfew : (10 : ℚ) ^ (precision - 1) ≤ 10 ^ precision - 1 := by norm_num [precision]
    exact hless.le.trans (mul_le_mul_of_nonneg_right hfew hunit.le)

theorem value_nines (e : Int) :
    (⟨false, 10 ^ precision - 1, e⟩ : Decimal).value = (10 ^ precision - 1) * 10 ^ e := by
  have hcast : ((10 ^ precision - 1 : Nat) : ℚ) = 10 ^ precision - 1 := by
    rw [Nat.cast_pred (Nat.pow_pos (by decide)), Nat.cast_pow, Nat.cast_ofNat]
  rw [value_of_nonneg rfl, hcast]

theorem coefficient_nines (hx : x.negative = false) (hshort : x.Short)
    (hfull : 10 ^ (precision - 1) ≤ x.coefficient) {e : Int}
    (hvalue : x.value = (10 ^ precision - 1) * 10 ^ e) : x.coefficient = 10 ^ precision - 1 := by
  have hunit : (0 : ℚ) < 10 ^ e := zpow_pos (by norm_num) _
  have hexp : x.exponent = e := by
    refine exponent_eq hx hshort hfull ?_ ?_
    · rw [hvalue]
      exact mul_le_mul_of_nonneg_right (by norm_num [precision]) hunit.le
    · rw [hvalue]
      exact mul_lt_mul_of_pos_right (sub_one_lt _) hunit
  rw [← value_nines e, value_of_nonneg hx, value_of_nonneg rfl, hexp,
    mul_left_inj' hunit.ne'] at hvalue
  exact_mod_cast hvalue

/-- Rounding reaches a power of ten from half a unit below it on: nines for all the digits end in an
odd one. -/
theorem Rounds.le_value_iff (h : x.Rounds q) (hx : x.negative = false) (e : Int) :
    10 ^ precision * 10 ^ e ≤ x.value ↔ (10 ^ precision - 1 / 2) * 10 ^ e ≤ q := by
  have hunit : (0 : ℚ) < 10 ^ e := zpow_pos (by norm_num) _
  constructor
  · intro hle
    by_contra! hlt
    have hnear := h.nearest ⟨false, 10 ^ precision - 1, e⟩ (Nat.sub_one_lt (by decide))
    have hcloser : |(10 ^ precision - 1) * 10 ^ e - q| < x.value - q := by
      rw [abs_lt]
      constructor <;> linarith
    rw [value_nines] at hnear
    exact absurd hnear (hcloser.trans_le (le_abs_self _)).not_ge
  · intro hle
    by_contra! hlt
    have hnines := h.short.value_le hlt
    have hpower : (carry false (10 ^ precision) e).Short := short_carry le_rfl e
    have hnear := h.nearest _ hpower
    have htie := h.even _ hpower
    rw [value_carry] at hnear htie
    push_cast at hnear htie
    have hfar : |10 ^ precision * 10 ^ e - q| ≤ q - x.value := by
      rw [abs_le]
      constructor <;> linarith
    have hbelow : |x.value - q| = q - x.value := by
      rw [abs_sub_comm, abs_of_nonneg (by linarith)]
    rw [hbelow] at hnear htie
    obtain ⟨hfull, heven⟩ := htie (le_antisymm hfar hnear) hlt.ne'
    have hvalue : x.value = (10 ^ precision - 1) * 10 ^ e := by
      refine le_antisymm hnines ?_
      obtain hleft | hright := le_abs.mp hnear <;> linarith
    rw [coefficient_nines hx h.short hfull hvalue] at heven
    exact absurd heven (by decide)

theorem Rounds.coefficient_ne_zero (h : x.Rounds q) (hq : 0 < q) : x.coefficient ≠ 0 := by
  intro hc
  have hzero : x.value = 0 := by simp [value, hc]
  have hnear := h.abs_sub_le hq.le
  rw [hzero, zero_sub, abs_neg, abs_of_pos hq] at hnear
  linarith

theorem Rounds.coefficient_eq_zero (h : x.Rounds 0) : x.coefficient = 0 := by
  have hnear := h.abs_sub_le le_rfl
  rw [mul_zero, sub_zero, abs_nonpos_iff, value, mul_eq_zero, mul_eq_zero] at hnear
  obtain hsign | hcoef | hunit := hnear
  · split at hsign <;> norm_num at hsign
  · exact_mod_cast hcoef
  · exact absurd hunit (zpow_ne_zero _ (by norm_num))

/-- The least number that has no place among the decimals once it is rounded. -/
def overflowFrom : ℚ := (10 ^ precision - 1 / 2) * 10 ^ (mostLead + 1 - precision : Int)

theorem pow_mostLead_succ : (10 : ℚ) ^ (mostLead + 1 : Int) =
    10 ^ precision * 10 ^ (mostLead + 1 - precision : Int) := by
  rw [← zpow_natCast, ← zpow_add₀ (by norm_num), add_sub_cancel]

theorem overflowFrom_le : overflowFrom ≤ 10 ^ (mostLead + 1 : Int) := by
  rw [pow_mostLead_succ]
  exact mul_le_mul_of_nonneg_right (by norm_num) (zpow_nonneg (by norm_num) _)

theorem overflowFrom_pos : 0 < overflowFrom :=
  mul_pos (by norm_num [precision]) (zpow_pos (by norm_num) _)

theorem Rounds.lt_lead_iff (h : x.Rounds q) (hx : x.negative = false) (hq : 0 < q) :
    mostLead < x.lead ↔ overflowFrom ≤ q := by
  rw [Decimal.lt_lead_iff hx (h.coefficient_ne_zero hq), pow_mostLead_succ, h.le_value_iff hx,
    overflowFrom]

/-- What an operation on decimals answers whose exact result is the number: that number rounded
once, if it is then in range. -/
structure Answers (r : Except Fault Decimal) (q : ℚ) : Prop where
  overflow : overflowFrom ≤ q → r = .error .overflow
  ok : q < overflowFrom → ∃ x : Decimal, x.negative = false ∧ x.Rounds q ∧ r = .ok x

theorem answers_checked (h : x.Rounds q) (hx : x.negative = false) (hq : 0 < q) :
    Answers x.checked q where
  overflow hover := if_pos ((h.lt_lead_iff hx hq).mpr hover)
  ok hunder := ⟨x, hx, h, if_neg fun hlead => hunder.not_ge ((h.lt_lead_iff hx hq).mp hlead)⟩

theorem answers_zero (e : Int) : Answers (.ok (zero false e)) 0 where
  overflow hover := absurd hover overflowFrom_pos.not_ge
  ok _ := by
    have hvalue : (zero false e).value = 0 := by simp [value, zero]
    have hrounds := rounds_value (x := zero false e) (Nat.pow_pos (by decide))
    rw [hvalue] at hrounds
    exact ⟨_, rfl, hrounds, rfl⟩

theorem Answers.overflow_iff {r : Except Fault Decimal} (h : Answers r q) :
    r = .error .overflow ↔ overflowFrom ≤ q := by
  refine ⟨fun hr => ?_, h.overflow⟩
  by_contra! hlt
  obtain ⟨x, -, -, hx⟩ := h.ok hlt
  rw [hx] at hr
  cases hr

end Decimal

end SignalPool
