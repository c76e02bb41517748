import SignalPool.FeeRatio
import SignalPool.Proofs.NearestDouble

namespace SignalPool.FeeRatio

open Binary64

theorem le_of_lt_hundred {significand : Nat} {exponent k : Int} (hbits : significand < 2 ^ 53)
    (h : (significand : ℚ) * 2 ^ exponent < 100 * 2 ^ k) :
    (significand : ℚ) * 2 ^ exponent ≤ (100 - 1 / 2 ^ 47) * 2 ^ k := by
  have hpos : (0 : ℚ) < 2 ^ k := zpow_pos two_pos _
  obtain hcoarse | hfine := le_or_gt (k - 47) exponent
  · have hunit : (0 : ℚ) < 2 ^ (k - 47) := zpow_pos two_pos _
    obtain ⟨n, hn⟩ := Int.eq_ofNat_of_zero_le (sub_nonneg.mpr hcoarse)
    have hvalue : (significand : ℚ) * 2 ^ exponent =
        (significand * 2 ^ n : Nat) * 2 ^ (k - 47) := by
      have hexponent : exponent = n + (k - 47) := by omega
      rw [hexponent, zpow_add₀ two_ne_zero, zpow_natCast]
      push_cast
      ring
    have hpower : (2 : ℚ) ^ k = 2 ^ 47 * 2 ^ (k - 47) := by
      rw [zpow_sub₀ two_ne_zero, zpow_ofNat, mul_div_cancel₀ _ (by norm_num)]
    have hlt : significand * 2 ^ n < 100 * 2 ^ 47 := by
      rw [hvalue, hpower, ← mul_assoc] at h
      exact_mod_cast lt_of_mul_lt_mul_right h hunit.le
    have hle : ((significand * 2 ^ n : Nat) : ℚ) ≤ 100 * 2 ^ 47 - 1 := by
      have hsucc : ((significand * 2 ^ n + 1 : Nat) : ℚ) ≤ (100 * 2 ^ 47 : Nat) := by
        exact_mod_cast hlt
      push_cast at hsucc ⊢
      linarith
    calc (significand : ℚ) * 2 ^ exponent ≤ (100 * 2 ^ 47 - 1) * 2 ^ (k - 47) := by
          rw [hvalue]
          exact mul_le_mul_of_nonneg_right hle hunit.le
      _ = (100 - 1 / 2 ^ 47) * 2 ^ k := by
          rw [hpower]
          ring
  · have hlt : (significand : ℚ) < 2 ^ 53 := by exact_mod_cast hbits
    calc (significand : ℚ) * 2 ^ exponent ≤ 2 ^ 53 * 2 ^ (k - 48) :=
          mul_le_mul hlt.le (zpow_le_zpow_right₀ one_le_two (by omega)) (zpow_nonneg zero_le_two _)
            (by norm_num)
      _ = 32 * 2 ^ k := by
          rw [zpow_sub₀ two_ne_zero, zpow_ofNat]
          ring
      _ ≤ (100 - 1 / 2 ^ 47) * 2 ^ k := mul_le_mul_of_nonneg_right (by norm_num) hpos.le

theorem lt_two_zpow_iff {significand : Nat} {exponent k : Int} {u : ℚ}
    (hbits : significand < 2 ^ 53) (hleast : -900 ≤ k) (hmost : k ≤ 900)
    (hu : Nearest u (significand / 100 * 2 ^ (exponent + 16))) :
    u < 2 ^ (k + 16) ↔ (significand : ℚ) * 2 ^ exponent < 100 * 2 ^ k := by
  have hpos : (0 : ℚ) < 2 ^ k := zpow_pos two_pos _
  have hscaled : (significand : ℚ) / 100 * 2 ^ (exponent + 16) =
      significand * 2 ^ exponent * (2 ^ 16 / 100) := by
    rw [zpow_add₀ two_ne_zero, zpow_ofNat]
    ring
  have hpower : (2 : ℚ) ^ (k + 16) = 2 ^ k * 2 ^ 16 := by
    rw [zpow_add₀ two_ne_zero, zpow_ofNat]
  constructor
  · contrapose!
    intro hge
    refine hu.two_zpow_le (by omega) (by omega) ?_
    rw [hscaled, hpower]
    linarith
  · intro hlt
    have hle := le_of_lt_hundred hbits hlt
    refine hu.lt_two_zpow (by omega) (by omega) ?_
    rw [hscaled, hpower]
    linarith

theorem ofPercentage_of_finite {p : Binary64} {negative : Bool} {significand : Nat}
    {exponent : Int} (hp : p.datum = .finite negative significand exponent) :
    (ofPercentage p = .error .infinite ∧ 2 ^ 1024 ≤ (significand : ℚ) * 2 ^ (exponent + 16)) ∨
      ∃ u : ℚ, Nearest u (significand / 100 * 2 ^ (exponent + 16)) ∧
        ofPercentage p =
          if 0 ≤ wholePart negative u ∧ wholePart negative u < Width.u16.bound then
            .ok (wholePart negative u)
          else .error (.overflow ⟨.word .u16, wholePart negative u⟩) := by
  have hinfinity : (infinity negative).datum = .infinite negative := by
    cases negative <;> decide +kernel
  by_cases hlarge : (2 : ℚ) ^ 1024 ≤ significand * 2 ^ (exponent + 16)
  · refine .inl ⟨?_, hlarge⟩
    simp only [ofPercentage, scaled, hp, if_pos ((two_pow_le_iff _ _ _).mpr hlarge), hinfinity]
  · right
    have hquotient := cast_shift_div significand 100 (exponent + 16)
    have hlt : ((significand <<< (exponent + 16).toNat : Nat) : ℚ) /
        (100 <<< (-(exponent + 16)).toNat : Nat) < 2 ^ 1023 := by
      rw [hquotient, div_mul_eq_mul_div, div_lt_iff₀ (by norm_num)]
      rw [not_le, pow_succ] at hlarge
      exact hlarge.trans_le (mul_le_mul_of_nonneg_left (by norm_num) (pow_pos two_pos _).le)
    obtain ⟨cut, place, hdatum, hnear⟩ := ofRatio_nearest negative
      (Nat.shiftLeft_pos_iff.mpr (by norm_num)).ne' hlt
    rw [hquotient] at hnear
    refine ⟨_, hnear, ?_⟩
    simp only [ofPercentage, scaled, hp, if_neg (mt (two_pow_le_iff _ _ _).mp hlarge),
      hundredth, hdatum, truncate_eq]

/-- A hundred times this power of two is the limit for percentages of the sign: all of a pool above
zero, and the share of one unit below. -/
def limitExponent (negative : Bool) : Int := if negative then -16 else 0

theorem signed_between_iff (negative : Bool) {a : ℚ} (ha : 0 ≤ a) :
    -(100 / 65536) < signed negative a ∧ signed negative a < 100 ↔
      a < 100 * 2 ^ limitExponent negative := by
  cases negative
  · simp only [signed, limitExponent, Bool.false_eq_true, ↓reduceIte, zpow_zero, mul_one]
    exact ⟨And.right, fun h => ⟨by linarith, h⟩⟩
  · have hlimit : (100 : ℚ) * 2 ^ (-16 : Int) = 100 / 65536 := by norm_num
    simp only [signed, limitExponent, ↓reduceIte, hlimit, neg_lt_neg_iff]
    exact ⟨And.left, fun h => ⟨h, by linarith⟩⟩

theorem limit_le_of_overflow (negative : Bool) {significand : Nat} {exponent : Int}
    (h : 2 ^ 1024 ≤ (significand : ℚ) * 2 ^ (exponent + 16)) :
    100 * 2 ^ limitExponent negative ≤ (significand : ℚ) * 2 ^ exponent := by
  have hpower : (2 : ℚ) ^ 23 ≤ 2 ^ 1024 := pow_le_pow_right₀ one_le_two (by decide)
  have hproduct := hpower.trans h
  rw [zpow_add₀ two_ne_zero, zpow_ofNat] at hproduct
  have hlimit : (2 : ℚ) ^ limitExponent negative ≤ 1 :=
    zpow_le_one_of_nonpos₀ one_le_two (by cases negative <;> decide)
  linarith

theorem wholePart_fits_iff (negative : Bool) (u : ℚ) :
    0 ≤ wholePart negative u ∧ wholePart negative u < Width.u16.bound ↔
      u < 2 ^ (limitExponent negative + 16) := by
  have hbound : Width.u16.bound = 65536 := rfl
  rw [hbound]
  cases negative
  · have hfloor : ⌊u⌋₊ < 65536 ↔ u < 2 ^ (limitExponent false + 16) := by
      rw [Nat.floor_lt' (by decide), limitExponent]
      norm_num
    rw [← hfloor]
    simp only [wholePart, Bool.false_eq_true, ↓reduceIte]
    omega
  · have hfloor : ⌊u⌋₊ = 0 ↔ u < 2 ^ (limitExponent true + 16) := by
      rw [Nat.floor_eq_zero, limitExponent]
      norm_num
    rw [← hfloor]
    simp only [wholePart, ↓reduceIte]
    omega

theorem exists_ofPercentage_iff {p : Binary64} {v : ℚ} (hv : p.value? = some v) :
    (∃ ratio, ofPercentage p = .ok ratio) ↔ -(100 / 65536) < v ∧ v < 100 := by
  obtain ⟨negative, significand, exponent, hp, rfl⟩ := value?_eq_some_iff.mp hv
  obtain ⟨hbits, _⟩ := finite_bounds hp
  have hnonneg := magnitude_nonneg significand exponent
  rw [signed_between_iff negative hnonneg]
  obtain ⟨herror, hlarge⟩ | ⟨u, hu, hcheck⟩ := ofPercentage_of_finite hp
  · exact iff_of_false (by simp [herror]) (not_lt.mpr (limit_le_of_overflow negative hlarge))
  · have hleast : -900 ≤ limitExponent negative := by cases negative <;> decide
    have hmost : limitExponent negative ≤ 900 := by cases negative <;> decide
    rw [← lt_two_zpow_iff hbits hleast hmost hu, ← wholePart_fits_iff, hcheck]
    split_ifs with hfits
    · exact iff_of_true ⟨_, rfl⟩ hfits
    · exact iff_of_false nofun hfits

theorem ofPercentage_of_not_finite {p : Binary64} (hp : p.value? = none) :
    ∃ f, ofPercentage p = .error f := by
  unfold value? at hp
  cases hdatum : p.datum with
  | nan => exact ⟨.notANumber, by simp only [ofPercentage, scaled, hdatum]⟩
  | infinite negative => exact ⟨.infinite, by simp only [ofPercentage, scaled, hdatum]⟩
  | finite negative significand exponent =>
    rw [hdatum] at hp
    cases hp

theorem ratio_le_of_ok {p : Binary64} {ratio : Int} (h : ofPercentage p = .ok ratio) :
    0 ≤ ratio ∧ ratio ≤ 65535 := by
  unfold ofPercentage at h
  split at h
  · cases h
  · cases h
  · dsimp only at h
    split_ifs at h with hrange
    cases h
    exact ⟨hrange.1, Int.lt_add_one_iff.mp hrange.2⟩

/-- A percentage gets a ratio of sixteen bits exactly if it is less than a hundred and, as fractions
of a unit are cut off before the range is checked, more than the share of one unit below zero. Every
other double is refused. -/
theorem ofPercentage_accepts_iff (p : Binary64) :
    ((∃ ratio, ofPercentage p = .ok ratio ∧ 0 ≤ ratio ∧ ratio ≤ 65535) ↔
        ∃ v, p.value? = some v ∧ -(100 / 65536) < v ∧ v < 100) ∧
      ((∃ f, ofPercentage p = .error f) ↔
        ∀ v, p.value? = some v → v ≤ -(100 / 65536) ∨ 100 ≤ v) := by
  have haccepted : (∃ ratio, ofPercentage p = .ok ratio) ↔
      ∃ v, p.value? = some v ∧ -(100 / 65536) < v ∧ v < 100 := by
    cases hv : p.value? with
    | none =>
      obtain ⟨f, hf⟩ := ofPercentage_of_not_finite hv
      simp [hf]
    | some v =>
      rw [exists_ofPercentage_iff hv]
      simp
  refine ⟨?_, ?_⟩
  · rw [← haccepted]
    exact exists_congr fun ratio => and_iff_left_of_imp ratio_le_of_ok
  · have hrefused : (∃ f, ofPercentage p = .error f) ↔ ¬∃ ratio, ofPercentage p = .ok ratio := by
      cases ofPercentage p <;> simp
    rw [hrefused, haccepted, not_exists]
    refine forall_congr' fun v => ?_
    rw [not_and, not_and_or, not_lt, not_lt]

theorem hundred_refused :
    (⟨0x4059000000000000⟩ : Binary64).value? = some 100 ∧
      ofPercentage ⟨0x4059000000000000⟩ = .error (.overflow ⟨.word .u16, 65536⟩) ∧
      (⟨0xbf50000000000000⟩ : Binary64).value? = some (-(1 / 1024)) ∧
      ofPercentage ⟨0xbf50000000000000⟩ = .ok 0 := by
  decide +kernel

end SignalPool.FeeRatio
