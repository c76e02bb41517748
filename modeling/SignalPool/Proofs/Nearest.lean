import Mathlib.Algebra.Order.Archimedean.Basic
import Mathlib.Data.Rat.Floor
import Mathlib.Tactic.Linarith
import Mathlib.Tactic.NormNum
import Mathlib.Tactic.Positivity
import Mathlib.Tactic.Ring
import SignalPool.Decimal

namespace SignalPool

namespace Rounding

variable {n d : Nat}

theorem abs_halfEven_sub_le (n : Nat) (hd : 0 < d) : |(halfEven n d : ℚ) - n / d| ≤ 1 / 2 := by
  have hpos : (0 : ℚ) < d := by exact_mod_cast hd
  have hupper : (2 * (d * halfEven n d) : ℚ) ≤ 2 * n + d := by
    exact_mod_cast halfEven_upper n d hd
  have hlower : (2 * n : ℚ) ≤ 2 * (d * halfEven n d) + d := by
    exact_mod_cast halfEven_lower n d hd
  have hn : (n : ℚ) = n / d * d := (div_mul_cancel₀ _ hpos.ne').symm
  rw [abs_le]
  constructor
  · refine le_of_mul_le_mul_right ?_ hpos
    linarith
  · refine le_of_mul_le_mul_right ?_ hpos
    linarith

theorem cast_div_eq (n : Nat) (hd : 0 < d) : (n : ℚ) / d = (n / d : Nat) + (n % d : Nat) / d := by
  have hpos : (0 : ℚ) < d := by exact_mod_cast hd
  have hn : (n : ℚ) = d * (n / d : Nat) + (n % d : Nat) := by
    exact_mod_cast (Nat.div_add_mod n d).symm
  rw [div_eq_iff hpos.ne', add_mul, div_mul_cancel₀ _ hpos.ne', mul_comm]
  exact hn

theorem halfEven_even (hd : 0 < d) (h : |(halfEven n d : ℚ) - n / d| = 1 / 2) :
    halfEven n d % 2 = 0 := by
  have hpos : (0 : ℚ) < d := by exact_mod_cast hd
  have hrem : (0 : ℚ) ≤ (n % d : Nat) / d := by positivity
  have hlt : ((n % d : Nat) : ℚ) / d < 1 := by
    rw [div_lt_one hpos]
    exact_mod_cast Nat.mod_lt n hd
  rw [cast_div_eq n hd] at h
  unfold halfEven at h ⊢
  split_ifs at h ⊢ with hbelow habove
  · have hhalf : ((n % d : Nat) : ℚ) / d < 1 / 2 := by
      rw [div_lt_div_iff₀ hpos two_pos]
      exact_mod_cast (by omega : n % d * 2 < 1 * d)
    rw [sub_add_cancel_left, abs_neg, abs_of_nonneg hrem] at h
    exact absurd h hhalf.ne
  · have hhalf : 1 / 2 < ((n % d : Nat) : ℚ) / d := by
      rw [div_lt_div_iff₀ two_pos hpos]
      exact_mod_cast (by omega : 1 * d < n % d * 2)
    rw [Nat.cast_add, Nat.cast_one, add_sub_add_left_eq_sub, abs_of_pos (by linarith)] at h
    linarith
  · omega

theorem half_le_abs_sub {c k : Int} {q : ℚ} (h : |(c : ℚ) - q| ≤ 1 / 2) (hk : k ≠ c) :
    1 / 2 ≤ |(k : ℚ) - q| := by
  have hone : (1 : ℚ) ≤ |(k : ℚ) - c| := by exact_mod_cast Int.one_le_abs (sub_ne_zero.mpr hk)
  have htri : |(k : ℚ) - c| ≤ |(k : ℚ) - q| + |(c : ℚ) - q| := by
    rw [abs_sub_comm (c : ℚ) q]
    exact abs_sub_le _ _ _
  linarith

theorem abs_sub_le_abs_sub {c : Int} {q : ℚ} (h : |(c : ℚ) - q| ≤ 1 / 2) (k : Int) :
    |(c : ℚ) - q| ≤ |(k : ℚ) - q| := by
  by_cases hk : k = c
  · rw [hk]
  · exact h.trans (half_le_abs_sub h hk)

theorem abs_scaled (a q : ℚ) {unit : ℚ} (hunit : 0 < unit) :
    |a * unit - q * unit| = |a - q| * unit := by
  rw [← sub_mul, abs_mul, abs_of_pos hunit]

theorem exists_near {q : ℚ} (hq : 0 ≤ q) : ∃ n : Nat, |(n : ℚ) - q| ≤ 1 / 2 := by
  have hnum : ((q.num.toNat : Nat) : ℚ) = q.num := by
    exact_mod_cast Int.toNat_of_nonneg (Rat.num_nonneg.mpr hq)
  have hnear := abs_halfEven_sub_le q.num.toNat q.den_pos
  rw [hnum, Rat.num_div_den] at hnear
  exact ⟨_, hnear⟩

end Rounding

namespace Decimal

def value (x : Decimal) : ℚ :=
  (if x.negative then -1 else 1) * (x.coefficient * 10 ^ x.exponent)

theorem value_of_nonneg {x : Decimal} (h : x.negative = false) :
    x.value = x.coefficient * 10 ^ x.exponent := by
  simp [value, h]

theorem value_nonneg {x : Decimal} (h : x.negative = false) : 0 ≤ x.value := by
  rw [value_of_nonneg h]
  exact mul_nonneg (Nat.cast_nonneg _) (zpow_nonneg (by norm_num) _)

def Short (x : Decimal) : Prop := x.coefficient < 10 ^ precision

instance : DecidablePred Short := fun x =>
  inferInstanceAs (Decidable (x.coefficient < 10 ^ precision))

/-- The decimal is the number rounded once: no decimal of so few digits is nearer. If another one is
as near, the decimal uses all its digits and the last of them is even. -/
structure Rounds (x : Decimal) (q : ℚ) : Prop where
  short : x.Short
  nearest : ∀ y : Decimal, y.Short → |x.value - q| ≤ |y.value - q|
  even : ∀ y : Decimal, y.Short → |y.value - q| = |x.value - q| → y.value ≠ x.value →
    10 ^ (precision - 1) ≤ x.coefficient ∧ x.coefficient % 2 = 0

def Writable (q : ℚ) : Prop := ∃ y : Decimal, y.Short ∧ y.value = q

theorem Rounds.value_eq {x : Decimal} {q : ℚ} (h : x.Rounds q) (hq : Writable q) :
    x.value = q := by
  obtain ⟨y, hy, rfl⟩ := hq
  have hnear := h.nearest y hy
  rw [sub_self, abs_zero] at hnear
  exact sub_eq_zero.mp (abs_nonpos_iff.mp hnear)

theorem Rounds.le_value {x y : Decimal} {q : ℚ} (h : x.Rounds q) (hy : y.Short)
    (hle : y.value ≤ q) : y.value ≤ x.value := by
  by_contra! hlt
  have hnear := h.nearest y hy
  rw [abs_sub_comm, abs_of_nonneg (by linarith), abs_sub_comm, abs_of_nonneg (by linarith)] at hnear
  linarith

theorem Rounds.value_le {x y : Decimal} {q : ℚ} (h : x.Rounds q) (hy : y.Short)
    (hle : q ≤ y.value) : x.value ≤ y.value := by
  by_contra! hlt
  have hnear := h.nearest y hy
  rw [abs_of_nonneg (by linarith), abs_of_nonneg (by linarith)] at hnear
  linarith

theorem value_pow (e : Int) : (⟨false, 1, e⟩ : Decimal).value = 10 ^ e := by
  rw [value_of_nonneg rfl, Nat.cast_one, one_mul]

theorem Rounds.pow_le_value {x : Decimal} {q : ℚ} (h : x.Rounds q) {e : Int} (hle : 10 ^ e ≤ q) :
    10 ^ e ≤ x.value := by
  rw [← value_pow] at hle ⊢
  exact h.le_value (Nat.one_lt_pow (by decide) (by decide)) hle

theorem Rounds.value_le_pow {x : Decimal} {q : ℚ} (h : x.Rounds q) {e : Int} (hle : q ≤ 10 ^ e) :
    x.value ≤ 10 ^ e := by
  rw [← value_pow] at hle ⊢
  exact h.value_le (Nat.one_lt_pow (by decide) (by decide)) hle

theorem rounds_value {x : Decimal} (h : x.Short) : x.Rounds x.value where
  short := h
  nearest y _ := by
    rw [sub_self, abs_zero]
    exact abs_nonneg _
  even y _ htie hne := by
    rw [sub_self, abs_zero, abs_eq_zero, sub_eq_zero] at htie
    exact absurd htie hne

theorem Short.value_lt {x : Decimal} (h : x.Short) :
    x.value < 10 ^ (precision + x.exponent) := by
  have hpow : (0 : ℚ) < 10 ^ x.exponent := zpow_pos (by norm_num) _
  have hcoef : (x.coefficient : ℚ) < 10 ^ precision := by exact_mod_cast h
  have hle : x.value ≤ x.coefficient * 10 ^ x.exponent := by
    unfold value
    split
    · have : (0 : ℚ) ≤ x.coefficient * 10 ^ x.exponent := by positivity
      linarith
    · rw [one_mul]
  rw [zpow_add₀ (by norm_num), zpow_natCast]
  exact hle.trans_lt (mul_lt_mul_of_pos_right hcoef hpow)

/-- A short decimal is a multiple of a given unit, or less than any that uses all its digits there.
-/
theorem Short.multiple_or_lt {y : Decimal} (h : y.Short) (e : Int) :
    (∃ k : Int, y.value = k * 10 ^ e) ∨ y.value < 10 ^ (precision - 1) * 10 ^ e := by
  obtain he | he := le_or_gt e y.exponent
  · left
    obtain ⟨n, hn⟩ := Int.eq_ofNat_of_zero_le (sub_nonneg.mpr he)
    have hexp : y.exponent = n + e := by omega
    refine ⟨(if y.negative then -1 else 1) * (y.coefficient * 10 ^ n), ?_⟩
    rw [value, hexp, zpow_add₀ (by norm_num), zpow_natCast]
    push_cast
    split <;> ring
  · right
    have hlast : ((precision - 1 : Nat) : Int) = precision - 1 := rfl
    refine h.value_lt.trans_le ?_
    rw [← zpow_natCast, ← zpow_add₀ (by norm_num)]
    exact zpow_le_zpow_right₀ (by norm_num) (by omega)

/-- Against the whole number of units that is nearest, any other short decimal is at least half a
unit away or, if it has a smaller unit, strictly farther. -/
theorem Short.far {y : Decimal} (hy : y.Short) {c e : Int} {q : ℚ}
    (hq : 10 ^ (precision - 1) ≤ q) (hc : |c - q| ≤ 1 / 2) (hne : y.value ≠ c * 10 ^ e) :
    1 / 2 * 10 ^ e ≤ |y.value - q * 10 ^ e| ∨ |c - q| * 10 ^ e < |y.value - q * 10 ^ e| := by
  have hunit : (0 : ℚ) < 10 ^ e := zpow_pos (by norm_num) _
  obtain ⟨k, hk⟩ | hlt := hy.multiple_or_lt e
  · left
    have hkc : k ≠ c := fun h => hne (h ▸ hk)
    rw [hk, Rounding.abs_scaled _ _ hunit]
    exact mul_le_mul_of_nonneg_right (Rounding.half_le_abs_sub hc hkc) hunit.le
  · right
    have hleast : |(c : ℚ) - q| ≤ q - 10 ^ (precision - 1) := by
      have habs : |((10 ^ (precision - 1) : Int) : ℚ) - q| = q - 10 ^ (precision - 1) := by
        rw [abs_sub_comm, abs_of_nonneg] <;> push_cast <;> linarith
      rw [← habs]
      exact Rounding.abs_sub_le_abs_sub hc _
    calc |(c : ℚ) - q| * 10 ^ e ≤ (q - 10 ^ (precision - 1)) * 10 ^ e :=
          mul_le_mul_of_nonneg_right hleast hunit.le
      _ = q * 10 ^ e - 10 ^ (precision - 1) * 10 ^ e := sub_mul _ _ _
      _ < q * 10 ^ e - y.value := sub_lt_sub_left hlt _
      _ ≤ |y.value - q * 10 ^ e| := by
          rw [abs_sub_comm]
          exact le_abs_self _

theorem rounds_of_near {x : Decimal} {c e : Int} {q : ℚ} (hshort : x.Short)
    (hvalue : x.value = c * 10 ^ e) (hq : 10 ^ (precision - 1) ≤ q) (hnear : |c - q| ≤ 1 / 2)
    (heven : |c - q| = 1 / 2 → 10 ^ (precision - 1) ≤ x.coefficient ∧ x.coefficient % 2 = 0) :
    x.Rounds (q * 10 ^ e) := by
  have hunit : (0 : ℚ) < 10 ^ e := zpow_pos (by norm_num) _
  have hx : |x.value - q * 10 ^ e| = |c - q| * 10 ^ e := by
    rw [hvalue, Rounding.abs_scaled _ _ hunit]
  refine ⟨hshort, fun y hy => ?_, fun y hy htie hne => heven ?_⟩
  · by_cases hne : y.value = x.value
    · rw [hne]
    · rw [hx]
      obtain hhalf | hlt := hy.far hq hnear (hvalue ▸ hne)
      · exact (mul_le_mul_of_nonneg_right hnear hunit.le).trans hhalf
      · exact hlt.le
  · rw [hx] at htie
    obtain hhalf | hlt := hy.far hq hnear (hvalue ▸ hne)
    · rw [htie] at hhalf
      exact le_antisymm hnear (le_of_mul_le_mul_right hhalf hunit)
    · exact absurd htie hlt.ne'

theorem carry_of_lt {c : Nat} (hc : c < 10 ^ precision) (e : Int) :
    carry false c e = ⟨false, c, e⟩ :=
  if_neg hc.ne

theorem negative_carry (c : Nat) (e : Int) : (carry false c e).negative = false := by
  unfold carry
  split <;> rfl

theorem value_carry (c : Nat) (e : Int) : (carry false c e).value = c * 10 ^ e := by
  unfold carry
  split_ifs with h
  · rw [value_of_nonneg rfl, h, zpow_add_one₀ (by norm_num)]
    norm_num [precision]
    ring
  · exact value_of_nonneg rfl

theorem short_carry {c : Nat} (hc : c ≤ 10 ^ precision) (e : Int) : (carry false c e).Short := by
  unfold carry
  split_ifs with h
  · exact Nat.pow_lt_pow_right (by decide) (by decide)
  · exact lt_of_le_of_ne hc h

theorem le_coefficient_carry {c : Nat} (hc : 10 ^ (precision - 1) ≤ c) (e : Int) :
    10 ^ (precision - 1) ≤ (carry false c e).coefficient := by
  unfold carry
  split_ifs
  · exact le_rfl
  · exact hc

theorem coefficient_carry_even {c : Nat} (hc : c % 2 = 0) (e : Int) :
    (carry false c e).coefficient % 2 = 0 := by
  unfold carry
  split_ifs
  · exact (by decide : 10 ^ (precision - 1) % 2 = 0)
  · exact hc

/-- The unit in which a positive number has as many digits before the point as fit. -/
theorem exists_unit {q : ℚ} (hq : 0 < q) :
    ∃ e : Int, 10 ^ 27 * 10 ^ e ≤ q ∧ q < 10 ^ precision * 10 ^ e := by
  obtain ⟨e, hlo, hhi⟩ := exists_mem_Ico_zpow hq (by norm_num : (1 : ℚ) < 10)
  refine ⟨e - 27, ?_, ?_⟩
  · rw [← zpow_natCast, ← zpow_add₀ (by norm_num)]
    exact (congrArg _ (by omega)).trans_le hlo
  · rw [← zpow_natCast, ← zpow_add₀ (by norm_num)]
    exact hhi.trans_eq (congrArg _ (by rw [precision]; omega))

theorem exists_short_near {q : ℚ} {e : Int} (hq : 0 ≤ q) (hlt : q < 10 ^ precision * 10 ^ e) :
    ∃ y : Decimal, y.Short ∧ |y.value - q| ≤ 1 / 2 * 10 ^ e := by
  have hunit : (0 : ℚ) < 10 ^ e := zpow_pos (by norm_num) _
  obtain ⟨c, hc⟩ := Rounding.exists_near (div_nonneg hq hunit.le)
  have hcle : c ≤ 10 ^ precision := by
    have hbelow : (c : ℚ) < (10 ^ precision + 1 : Nat) := by
      have hquot : q / 10 ^ e < 10 ^ precision := (div_lt_iff₀ hunit).mpr hlt
      have habove := (abs_le.mp hc).2
      push_cast
      linarith
    exact Nat.lt_succ_iff.mp (by exact_mod_cast hbelow)
  refine ⟨carry false c e, short_carry hcle e, ?_⟩
  have hscaled := Rounding.abs_scaled c (q / 10 ^ e) hunit
  rw [div_mul_cancel₀ _ hunit.ne'] at hscaled
  rw [value_carry, hscaled]
  exact mul_le_mul_of_nonneg_right hc hunit.le

theorem Rounds.abs_sub_le {x : Decimal} {q : ℚ} (h : x.Rounds q) (hq : 0 ≤ q) :
    |x.value - q| ≤ 5 / 10 ^ 28 * q := by
  obtain rfl | hpos := hq.eq_or_lt
  · have hzero : x.value = 0 := h.value_eq ⟨⟨false, 0, 0⟩, Nat.pow_pos (by decide), by simp [value]⟩
    simp [hzero]
  · obtain ⟨e, hlo, hhi⟩ := exists_unit hpos
    obtain ⟨y, hy, hnear⟩ := exists_short_near hq hhi
    calc |x.value - q| ≤ |y.value - q| := h.nearest y hy
      _ ≤ 1 / 2 * 10 ^ e := hnear
      _ ≤ 5 / 10 ^ 28 * q := by linarith

end Decimal

end SignalPool
