import SignalPool.Order
import SignalPool.Proofs.DecimalOperations

namespace SignalPool.Order

open Decimal

theorem amount_eq {d : Nat} {unit : Decimal} (h : tenTo d = .ok unit) (a : Nat) :
    amount a d = (ofInt a).div unit := by
  rw [amount, h]
  rfl

theorem amount_answers (a : Nat) {d : Nat} (hd : d ≤ mostLead) :
    Answers (amount a d) (a / 10 ^ d) := by
  obtain ⟨unit, hunit, hsign, hcoef, hvalue⟩ := tenTo_eq hd
  have hleast : a = 0 ∨ (10 : ℚ) ^ (-mostLead : Int) ≤ a / 10 ^ d := by
    refine (Nat.eq_zero_or_pos a).imp_right fun ha => ?_
    have hpow : (10 : ℚ) ^ (-mostLead : Int) ≤ 1 / 10 ^ d := by
      rw [one_div, ← zpow_natCast, ← zpow_neg]
      exact zpow_le_zpow_right₀ (by norm_num) (by omega)
    refine hpow.trans (div_le_div_of_nonneg_right ?_ (pow_nonneg (by norm_num) d))
    exact_mod_cast ha
  have h := div_answers (x := ofInt a) (y := unit) (by rw [ofInt_natCast]) hsign hcoef
    (by rwa [value_ofInt, hvalue, ofInt_natCast])
  rwa [value_ofInt, hvalue, ← amount_eq hunit] at h

theorem lt_overflowFrom {q : ℚ} (hq : q ≤ 10 ^ mostLead) : q < overflowFrom := by
  have hpow : (10 : ℚ) ^ mostLead =
      10 ^ (precision - 1) * 10 ^ (mostLead + 1 - precision : Int) := by
    rw [← zpow_natCast, ← zpow_natCast, ← zpow_add₀ (by norm_num)]
    exact congrArg _ (by rw [precision]; omega)
  rw [hpow] at hq
  exact hq.trans_lt
    (mul_lt_mul_of_pos_right (by norm_num [precision]) (zpow_pos (by norm_num) _))

/-- An amount over the power of ten of its decimals is rounded once, and refused exactly if it is
then out of range. Nothing is lost below `10 ^ 28`, where every amount of a machine word is. -/
theorem amount_rounds (a : Nat) (d : UInt8) :
    (amount a d.toNat = .error .overflow ↔ overflowFrom ≤ a / 10 ^ d.toNat) ∧
      (a / 10 ^ d.toNat < overflowFrom → ∃ x, amount a d.toNat = .ok x ∧
        x.Rounds (a / 10 ^ d.toNat) ∧ (a < 10 ^ 28 → x.value = a / 10 ^ d.toNat)) ∧
      (a < 10 ^ 28 → a / 10 ^ d.toNat < overflowFrom) ∧
      (a < Width.u64.bound → a < 10 ^ 28) := by
  have hd : d.toNat ≤ mostLead := d.toNat_lt.le.trans (by decide)
  have h := amount_answers a hd
  refine ⟨h.overflow_iff, fun hunder => ?_, fun ha => ?_, fun ha => ha.trans (by decide)⟩
  · obtain ⟨x, -, hrounds, hx⟩ := h.ok hunder
    refine ⟨x, hx, hrounds, fun ha => hrounds.value_eq ⟨⟨false, a, -d.toNat⟩, ha, ?_⟩⟩
    rw [value_of_nonneg rfl, zpow_neg, zpow_natCast, div_eq_mul_inv]
  · have hle : (a : ℚ) / 10 ^ d.toNat ≤ a :=
      div_le_self (Nat.cast_nonneg a) (one_le_pow₀ (by norm_num))
    have hpow : (a : ℚ) ≤ 10 ^ mostLead := by
      exact_mod_cast ha.le.trans (Nat.pow_le_pow_right (by decide) (by decide))
    exact lt_overflowFrom (hle.trans hpow)

/-- The power of ten after the greatest exponent has no place among the decimals. -/
theorem amount_overflows : amount (10 ^ 1000000 : Nat) (0 : UInt8).toNat = .error .overflow ∧
    ¬∀ (a : Nat) (d : UInt8), ∃ x, amount a d.toNat = .ok x ∧ x.Rounds (a / 10 ^ d.toNat) := by
  have hover : amount (10 ^ 1000000 : Nat) (0 : UInt8).toNat = .error .overflow := by
    refine (amount_answers (10 ^ 1000000) (Nat.zero_le _)).overflow ?_
    have hpow : ((10 ^ 1000000 : Nat) : ℚ) = 10 ^ (mostLead + 1 : Int) := by
      have hnext : 1000000 = mostLead + 1 := rfl
      rw [Nat.cast_pow, Nat.cast_ofNat, hnext, ← zpow_natCast, Nat.cast_succ]
    rw [pow_zero, div_one, hpow]
    exact overflowFrom_le
  refine ⟨hover, fun hall => ?_⟩
  obtain ⟨x, hx, -⟩ := hall (10 ^ 1000000) 0
  rw [hover] at hx
  cases hx

theorem price_answers {p q c : Nat} (hc : c ≠ 0) (hpq : p * q ≤ 10 ^ mostLead)
    (hcle : c ≤ 10 ^ mostLead) : ∃ total r : Decimal, total.negative = false ∧
      total.Rounds (p * q) ∧ r.Rounds (total.value / c) ∧ price p q c = .ok r := by
  have hcpos : (1 : ℚ) ≤ c := by exact_mod_cast Nat.pos_of_ne_zero hc
  have hmost : (p * q : ℚ) ≤ 10 ^ mostLead := by exact_mod_cast hpq
  obtain ⟨total, hsign, hrounds, htotal⟩ := (mul_answers p q).ok (lt_overflowFrom hmost)
  have hnonneg := value_nonneg hsign
  have htop : total.value ≤ 10 ^ mostLead := by
    rw [← zpow_natCast] at hmost ⊢
    exact hrounds.value_le_pow hmost
  have hleast : total.coefficient = 0 ∨ (10 : ℚ) ^ (-mostLead : Int) ≤ total.value / c := by
    obtain hzero | hpos := Nat.eq_zero_or_pos (p * q)
    · left
      have hproduct : (p * q : ℚ) = 0 := by exact_mod_cast hzero
      exact (hproduct ▸ hrounds).coefficient_eq_zero
    · right
      have hone : (1 : ℚ) ≤ total.value := by
        rw [← zpow_zero (10 : ℚ)]
        refine hrounds.pow_le_value ?_
        rw [zpow_zero]
        exact_mod_cast hpos
      rw [zpow_neg, zpow_natCast, ← one_div]
      exact div_le_div₀ hnonneg hone (by linarith) (by exact_mod_cast hcle)
  have hdiv := div_answers (y := ofInt c) hsign (by rw [ofInt_natCast]) (by rwa [ofInt_natCast])
    (by rwa [value_ofInt])
  rw [value_ofInt] at hdiv
  obtain ⟨r, -, hr, hquot⟩ :=
    hdiv.ok (lt_overflowFrom ((div_le_self hnonneg hcpos).trans htop))
  refine ⟨total, r, hsign, hrounds, hr, ?_⟩
  rw [price, if_neg (Int.natCast_ne_zero.mpr hc), htotal]
  exact congrArg (Except.mapError _) hquot

theorem abs_sub_le_of_near {x r m c ε : ℚ} (hc : 0 < c) (hε : 0 ≤ ε) (hx : |x - m| ≤ ε * m)
    (hr : |r - x / c| ≤ ε * (x / c)) : |r * c - m| ≤ ((1 + ε) ^ 2 - 1) * m := by
  have hscaled : |r * c - x| ≤ ε * x := by
    calc |r * c - x| = |r - x / c| * c := by
          rw [← abs_of_pos hc, ← abs_mul, abs_of_pos hc, sub_mul, div_mul_cancel₀ _ hc.ne']
      _ ≤ ε * (x / c) * c := mul_le_mul_of_nonneg_right hr hc.le
      _ = ε * x := by rw [mul_assoc, div_mul_cancel₀ _ hc.ne']
  have hgrown : x ≤ (1 + ε) * m := by
    have h := (abs_le.mp hx).2
    linarith
  calc |r * c - m| ≤ |r * c - x| + |x - m| := abs_sub_le _ _ _
    _ ≤ ε * x + ε * m := add_le_add hscaled hx
    _ ≤ ε * ((1 + ε) * m) + ε * m := by gcongr
    _ = ((1 + ε) ^ 2 - 1) * m := by ring

theorem writable_mul {p q : Nat} (h : p * q < 10 ^ 28) : Writable (p * q) :=
  ⟨⟨false, p * q, 0⟩, h, by rw [value_of_nonneg rfl, zpow_zero, mul_one, Nat.cast_mul]⟩

theorem words_le {p q c : Nat} (hp : p < Width.u64.bound) (hq : q < Width.u64.bound)
    (hc : c < Width.u64.bound) : p * q ≤ 10 ^ mostLead ∧ c ≤ 10 ^ mostLead := by
  have hpow : 10 ^ 40 ≤ 10 ^ mostLead := Nat.pow_le_pow_right (by decide) (by decide)
  have hbound : Width.u64.bound ≤ 10 ^ 20 := by decide
  constructor
  · calc p * q ≤ 10 ^ 20 * 10 ^ 20 := Nat.mul_le_mul (by omega) (by omega)
      _ ≤ 10 ^ mostLead := hpow
  · omega

/-- A price is refused for lots of no tokens. Any other in range is rounded as a product and again
as a quotient, and is exact if neither needs more digits than fit; so is that of machine words. -/
theorem price_near (p q c : Nat) :
    (c = 0 → price p q c = .error (.format .zeroCoinLot)) ∧
      (c ≠ 0 → p * q ≤ 10 ^ mostLead → c ≤ 10 ^ mostLead → ∃ r, price p q c = .ok r ∧
        |r.value * c - p * q| ≤ ((1 + 5 / 10 ^ 28) ^ 2 - 1) * (p * q) ∧
          (p * q < 10 ^ 28 → Writable (p * q / c) → r.value * c = p * q)) ∧
      (p < Width.u64.bound → q < Width.u64.bound → c < Width.u64.bound →
        p * q ≤ 10 ^ mostLead ∧ c ≤ 10 ^ mostLead) := by
  refine ⟨fun hc => if_pos (congrArg Nat.cast hc), fun hc hpq hcle => ?_, words_le⟩
  obtain ⟨total, r, hsign, hproduct, hquotient, hr⟩ := price_answers hc hpq hcle
  have hcpos : (0 : ℚ) < c := by exact_mod_cast Nat.pos_of_ne_zero hc
  refine ⟨r, hr, ?_, fun hshort hwritable => ?_⟩
  · have hnonneg : (0 : ℚ) ≤ p * q := mul_nonneg (Nat.cast_nonneg p) (Nat.cast_nonneg q)
    exact abs_sub_le_of_near hcpos (by norm_num) (hproduct.abs_sub_le hnonneg)
      (hquotient.abs_sub_le (div_nonneg (value_nonneg hsign) hcpos.le))
  · rw [hproduct.value_eq (writable_mul hshort)] at hquotient
    rw [hquotient.value_eq hwritable, div_mul_cancel₀ _ hcpos.ne']

theorem price_near_eighths : 8 ≠ 0 ∧ 7 * 3 ≤ 10 ^ mostLead ∧ 8 ≤ 10 ^ mostLead ∧
    7 * 3 < 10 ^ 28 ∧ Writable (7 * 3 / 8) ∧
      ∃ r, price 7 3 8 = .ok r ∧ |r.value * 8 - 7 * 3| ≤ ((1 + 5 / 10 ^ 28) ^ 2 - 1) * (7 * 3) ∧
        r.value * 8 = 7 * 3 := by
  have hwritable : Writable (7 * 3 / 8) :=
    ⟨⟨false, 2625, -3⟩, by decide, by norm_num [value]⟩
  obtain ⟨hproduct, hlot⟩ := (price_near 7 3 8).2.2 (by decide) (by decide) (by decide)
  obtain ⟨r, hr, hnear, hexact⟩ := (price_near 7 3 8).2.1 (by decide) hproduct hlot
  exact ⟨by decide, hproduct, hlot, by decide, hwritable, r, hr, mod_cast hnear,
    mod_cast hexact (by norm_num) (mod_cast hwritable)⟩

end SignalPool.Order
