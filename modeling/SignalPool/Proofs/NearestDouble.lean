import Mathlib.Algebra.Order.Floor.Semifield
import Mathlib.Data.Int.Log
import SignalPool.Binary64
import SignalPool.Proofs.Nearest

namespace SignalPool

namespace Binary64

theorem cast_shift_div (num den : Nat) (e : Int) :
    ((num <<< e.toNat : Nat) : ℚ) / (den <<< (-e).toNat : Nat) = num / den * 2 ^ e := by
  rw [Nat.shiftLeft_eq, Nat.shiftLeft_eq]
  push_cast
  obtain ⟨n, rfl | rfl⟩ := Int.eq_nat_or_neg e
  · rw [Int.toNat_natCast, Int.toNat_neg_natCast, pow_zero, mul_one, zpow_natCast]
    ring
  · rw [neg_neg, Int.toNat_natCast, Int.toNat_neg_natCast, pow_zero, mul_one, zpow_neg,
      zpow_natCast, div_mul_eq_div_div, div_eq_mul_inv _ ((2 : ℚ) ^ n)]

theorem cast_shift_div_neg (num den : Nat) (e : Int) :
    ((num <<< (-e).toNat : Nat) : ℚ) / (den <<< e.toNat : Nat) = num / den / 2 ^ e := by
  have hshift := cast_shift_div num den (-e)
  rwa [neg_neg, zpow_neg, ← div_eq_mul_inv] at hshift

theorem magnitude_nonneg (significand : Nat) (exponent : Int) :
    (0 : ℚ) ≤ significand * 2 ^ exponent :=
  mul_nonneg (Nat.cast_nonneg _) (zpow_nonneg zero_le_two _)

def signed (negative : Bool) (q : ℚ) : ℚ := if negative then -q else q

def value? (x : Binary64) : Option ℚ :=
  match x.datum with
  | .finite negative significand exponent => some (signed negative (significand * 2 ^ exponent))
  | _ => none

theorem value?_eq_some_iff {x : Binary64} {v : ℚ} :
    x.value? = some v ↔ ∃ negative significand exponent,
      x.datum = .finite negative significand exponent ∧
        signed negative (significand * 2 ^ exponent) = v := by
  unfold value?
  cases x.datum with
  | nan => simp
  | infinite negative => simp
  | finite negative significand exponent => simp

theorem finite_bounds {x : Binary64} {negative : Bool} {significand : Nat} {exponent : Int}
    (h : x.datum = .finite negative significand exponent) :
    significand < 2 ^ 53 ∧ -1074 ≤ exponent := by
  have hfraction : x.bits.toNat % hidden < 2 ^ 52 := Nat.mod_lt _ (by decide)
  have hhidden : hidden = 2 ^ 52 := rfl
  dsimp only [datum] at h
  split_ifs at h with hinfinite hzero hsubnormal
  · cases h
    omega
  · cases h
    omega

theorem datum_ofNat (negative : Bool) {n : Nat} (h : n < 2047 * 2 ^ 52) :
    (⟨.ofNat (signBit negative + n)⟩ : Binary64).datum =
      if n / 2 ^ 52 = 0 then .finite negative (n % 2 ^ 52) (-1074)
      else .finite negative (2 ^ 52 + n % 2 ^ 52) ((n / 2 ^ 52 : Nat) - 1075) := by
  have hsign : signBit negative = if negative then 2 ^ 63 else 0 := by cases negative <;> rfl
  have hhidden : hidden = 2 ^ 52 := rfl
  have hbits : (UInt64.ofNat (signBit negative + n)).toNat = signBit negative + n := by
    rw [UInt64.toNat_ofNat', Nat.mod_eq_of_lt]
    rw [hsign]
    split <;> omega
  have hneg : decide ((signBit negative + n) >>> 63 = 1) = negative := by
    rw [hsign, Nat.shiftRight_eq_div_pow]
    cases negative
    · simp only [Bool.false_eq_true, ↓reduceIte, decide_eq_false_iff_not]
      omega
    · simp only [↓reduceIte, decide_eq_true_eq]
      omega
  have hbiased : (signBit negative + n) >>> 52 % 2048 = n / 2 ^ 52 := by
    rw [hsign, Nat.shiftRight_eq_div_pow]
    split <;> omega
  have hfraction : (signBit negative + n) % 2 ^ 52 = n % 2 ^ 52 := by
    rw [hsign]
    split <;> omega
  have hfinite : n / 2 ^ 52 ≠ 2047 := by omega
  simp only [datum, hbits, hneg, hbiased, if_neg hfinite, hhidden, hfraction]

/-- What is written with a significand of at most fifty-three bits at some place is a double of
that value; a significand of one bit more carries into the next place. -/
theorem datum_written (negative : Bool) {c : Nat} {place : Int} (hc : c ≤ 2 ^ 53)
    (hleast : -1074 ≤ place) (hmost : place ≤ 970) (hnormal : place = -1074 ∨ 2 ^ 52 ≤ c) :
    ∃ significand exponent,
      (⟨.ofNat (signBit negative + ((place + 1074).toNat <<< 52 + c))⟩ : Binary64).datum =
        .finite negative significand exponent ∧
      (significand : ℚ) * 2 ^ exponent = c * 2 ^ place := by
  rw [Nat.shiftLeft_eq, datum_ofNat negative (by omega)]
  obtain hsub | hfull := Nat.lt_or_ge c (2 ^ 52)
  · have hplace : place = -1074 := hnormal.resolve_right (by omega)
    refine ⟨c, -1074, ?_, by rw [hplace]⟩
    rw [hplace, if_pos (by omega)]
    congr 1
    omega
  · rw [if_neg (by omega)]
    refine ⟨_, _, rfl, ?_⟩
    obtain hshort | hcarry := Nat.lt_or_eq_of_le hc
    · have hexponent : (((place + 1074).toNat * 2 ^ 52 + c) / 2 ^ 52 : Nat) - 1075 = place := by
        omega
      have hsignificand : 2 ^ 52 + ((place + 1074).toNat * 2 ^ 52 + c) % 2 ^ 52 = c := by omega
      rw [hexponent, hsignificand]
    · have hexponent :
          (((place + 1074).toNat * 2 ^ 52 + c) / 2 ^ 52 : Nat) - 1075 = place + 1 := by
        omega
      have hsignificand : 2 ^ 52 + ((place + 1074).toNat * 2 ^ 52 + c) % 2 ^ 52 = 2 ^ 52 := by
        omega
      rw [hexponent, hsignificand, hcarry, zpow_add_one₀ two_ne_zero]
      push_cast
      ring

theorem exists_double (c : Nat) (place : Int) (hfull : 2 ^ 52 ≤ c) (hc : c ≤ 2 ^ 53)
    (hleast : -1074 ≤ place) (hmost : place ≤ 970) :
    ∃ y : Binary64, y.value? = some ((c : ℚ) * 2 ^ place) := by
  obtain ⟨significand, exponent, hdatum, hvalue⟩ :=
    datum_written false hc hleast hmost (.inr hfull)
  exact ⟨_, value?_eq_some_iff.mpr ⟨_, _, _, hdatum, hvalue⟩⟩

section Places

variable {num den : Nat}

theorem quotient_pos (hnum : num ≠ 0) (hden : den ≠ 0) : (0 : ℚ) < num / den :=
  div_pos (Nat.cast_pos.mpr (Nat.pos_of_ne_zero hnum)) (Nat.cast_pos.mpr (Nat.pos_of_ne_zero hden))

theorem shift_le_shift_iff (hden : 0 < den) (e : Int) :
    den <<< e.toNat ≤ num <<< (-e).toNat ↔ (2 : ℚ) ^ e ≤ num / den := by
  have hpos : (0 : ℚ) < (den <<< e.toNat : Nat) := by
    exact_mod_cast Nat.shiftLeft_pos_iff.mpr hden
  rw [← Nat.cast_le (α := ℚ), ← one_le_div hpos, cast_shift_div_neg,
    one_le_div (zpow_pos two_pos e)]

theorem two_pow_le_iff (n num : Nat) (e : Int) :
    1 <<< n <<< (-e).toNat ≤ num <<< e.toNat ↔ (2 : ℚ) ^ n ≤ num * 2 ^ e := by
  have hden : 0 < 1 <<< n := Nat.shiftLeft_pos_iff.mpr one_pos
  have hshift : 1 <<< n <<< (-e).toNat ≤ num <<< (- -e).toNat ↔
      (2 : ℚ) ^ (-e) ≤ num / (1 <<< n : Nat) := shift_le_shift_iff hden (-e)
  rw [neg_neg] at hshift
  rw [hshift, Nat.one_shiftLeft, Nat.cast_pow, Nat.cast_ofNat, zpow_neg,
    le_div_iff₀ (pow_pos two_pos _), inv_mul_le_iff₀ (zpow_pos two_pos _), mul_comm]

theorem log_bounds (hnum : num ≠ 0) (hden : den ≠ 0) :
    (2 : ℚ) ^ ((num.log2 : Int) - den.log2 - 1) < num / den ∧
      (num : ℚ) / den < 2 ^ ((num.log2 : Int) - den.log2 + 1) := by
  have hnumPos : (0 : ℚ) < num := by exact_mod_cast Nat.pos_of_ne_zero hnum
  have hdenPos : (0 : ℚ) < den := by exact_mod_cast Nat.pos_of_ne_zero hden
  have hnumLow : (2 : ℚ) ^ num.log2 ≤ num := by exact_mod_cast Nat.log2_self_le hnum
  have hnumHigh : (num : ℚ) < 2 ^ (num.log2 + 1) := by exact_mod_cast Nat.lt_log2_self
  have hdenLow : (2 : ℚ) ^ den.log2 ≤ den := by exact_mod_cast Nat.log2_self_le hden
  have hdenHigh : (den : ℚ) < 2 ^ (den.log2 + 1) := by exact_mod_cast Nat.lt_log2_self
  constructor
  · have hexponent : (num.log2 : Int) - den.log2 - 1 = num.log2 - (den.log2 + 1 : Nat) := by
      omega
    rw [hexponent, zpow_sub₀ two_ne_zero, zpow_natCast, zpow_natCast]
    exact div_lt_div₀' hnumLow hdenHigh hnumPos hdenPos
  · have hexponent : (num.log2 : Int) - den.log2 + 1 = (num.log2 + 1 : Nat) - den.log2 := by
      omega
    rw [hexponent, zpow_sub₀ two_ne_zero, zpow_natCast, zpow_natCast]
    exact div_lt_div₀ hnumHigh hdenLow (by positivity) (by positivity)

theorem lastPlace_eq (hnum : num ≠ 0) (hden : den ≠ 0) :
    lastPlace num den = max (Int.log 2 ((num : ℚ) / den) - 52) (-1074) := by
  have hdenPos : 0 < den := Nat.pos_of_ne_zero hden
  have hpos := quotient_pos hnum hden
  obtain ⟨hlow, hhigh⟩ := log_bounds hnum hden
  have hlog {e : Int} (hle : (2 : ℚ) ^ e ≤ num / den) (hlt : (num : ℚ) / den < 2 ^ (e + 1)) :
      e = Int.log 2 ((num : ℚ) / den) := by
    have hge := (Int.zpow_le_iff_le_log (b := 2) (by decide) hpos).mp hle
    have hle := (Int.lt_zpow_iff_log_lt (b := 2) (by decide) hpos).mp hlt
    omega
  dsimp only [lastPlace]
  split_ifs with hguess
  · rw [shift_le_shift_iff hdenPos] at hguess
    rw [hlog hguess hhigh]
  · rw [shift_le_shift_iff hdenPos, not_le] at hguess
    rw [hlog hlow.le (by rwa [sub_add_cancel])]

end Places

/-- Fifty-three bits at the place hold the number, and no fewer do unless the place is the last that
there is. -/
structure Fits (q : ℚ) (place : Int) : Prop where
  least : -1074 ≤ place
  lt : q < 2 ^ 53 * 2 ^ place
  normal : place = -1074 ∨ 2 ^ 52 * 2 ^ place ≤ q

theorem lastPlace_fits {num den : Nat} (hnum : num ≠ 0) (hden : den ≠ 0) :
    Fits ((num : ℚ) / den) (lastPlace num den) := by
  have hpos := quotient_pos hnum hden
  have hlow := Int.zpow_log_le_self (b := 2) (by decide) hpos
  have hhigh := Int.lt_zpow_succ_log_self (b := 2) (by decide) ((num : ℚ) / den)
  rw [lastPlace_eq hnum hden]
  generalize Int.log 2 ((num : ℚ) / den) = lead at hlow hhigh
  push_cast at hlow hhigh
  refine ⟨le_max_right _ _, ?_, ?_⟩
  · rw [← zpow_natCast, ← zpow_add₀ two_ne_zero]
    exact hhigh.trans_le (zpow_le_zpow_right₀ one_le_two (by omega))
  · obtain hle | hlt := le_or_gt (lead - 52) (-1074)
    · exact .inl (max_eq_right hle)
    · right
      rw [max_eq_left hlt.le, ← zpow_natCast, ← zpow_add₀ two_ne_zero]
      exact hlow.trans_eq' (congrArg _ (by push_cast; omega))

/-- Of the finite doubles none is nearer to the number. -/
def Nearest (u q : ℚ) : Prop := ∀ (y : Binary64) (t : ℚ), y.value? = some t → |u - q| ≤ |t - q|

theorem abs_signed (negative : Bool) (q : ℚ) : |signed negative q| = |q| := by
  cases negative
  · rfl
  · exact abs_neg q

/-- A double is a whole number of units of a place or, with a smaller unit of its own, less than any
number that uses all bits at the place. -/
theorem multiple_or_lt {y : Binary64} {t : ℚ} (hy : y.value? = some t) (place : Int) :
    (∃ k : Int, t = k * 2 ^ place) ∨ -1074 < place ∧ t < 2 ^ 52 * 2 ^ place := by
  obtain ⟨negative, significand, exponent, hdatum, rfl⟩ := value?_eq_some_iff.mp hy
  obtain ⟨hsignificand, hleast⟩ := finite_bounds hdatum
  obtain hle | hlt := le_or_gt place exponent
  · left
    obtain ⟨n, hn⟩ := Int.eq_ofNat_of_zero_le (sub_nonneg.mpr hle)
    have hexponent : exponent = n + place := by omega
    refine ⟨(if negative then -1 else 1) * (significand * 2 ^ n), ?_⟩
    rw [signed, hexponent, zpow_add₀ two_ne_zero, zpow_natCast]
    push_cast
    split <;> ring
  · right
    refine ⟨hleast.trans_lt hlt, ?_⟩
    have hbound : (significand : ℚ) < 2 ^ 53 := by exact_mod_cast hsignificand
    have hnonneg := magnitude_nonneg significand exponent
    calc signed negative (significand * 2 ^ exponent)
        ≤ |signed negative (significand * 2 ^ exponent)| := le_abs_self _
      _ = significand * 2 ^ exponent := by rw [abs_signed, abs_of_nonneg hnonneg]
      _ < 2 ^ 53 * 2 ^ exponent := mul_lt_mul_of_pos_right hbound (zpow_pos two_pos _)
      _ = 2 ^ 52 * 2 ^ (exponent + 1) := by rw [zpow_add_one₀ two_ne_zero]; ring
      _ ≤ 2 ^ 52 * 2 ^ place :=
          mul_le_mul_of_nonneg_left (zpow_le_zpow_right₀ one_le_two (by omega)) (by positivity)

theorem nearest_of_fits {q : ℚ} {place : Int} (hfits : Fits q place) {c : Nat}
    (hc : |(c : ℚ) - q / 2 ^ place| ≤ 1 / 2) : Nearest (c * 2 ^ place) q := by
  have hunit : (0 : ℚ) < 2 ^ place := zpow_pos two_pos _
  have hunits (a : ℚ) : |a * 2 ^ place - q| = |a - q / 2 ^ place| * 2 ^ place := by
    have hscaled := Rounding.abs_scaled a (q / 2 ^ place) hunit
    rwa [div_mul_cancel₀ _ hunit.ne'] at hscaled
  have hwhole (k : Int) : |(c : ℚ) * 2 ^ place - q| ≤ |(k : ℚ) * 2 ^ place - q| := by
    rw [hunits, hunits]
    exact mul_le_mul_of_nonneg_right (Rounding.abs_sub_le_abs_sub (c := c) hc k) hunit.le
  intro y t hy
  obtain ⟨k, rfl⟩ | ⟨hleast, hlt⟩ := multiple_or_lt hy place
  · exact hwhole k
  · have hnormal : 2 ^ 52 * 2 ^ place ≤ q := hfits.normal.resolve_left hleast.ne'
    calc |(c : ℚ) * 2 ^ place - q| ≤ |((2 ^ 52 : Int) : ℚ) * 2 ^ place - q| := hwhole _
      _ = q - 2 ^ 52 * 2 ^ place := by
          rw [abs_sub_comm, abs_of_nonneg] <;> push_cast <;> linarith
      _ ≤ q - t := by linarith
      _ ≤ |t - q| := by
          rw [abs_sub_comm]
          exact le_abs_self _

theorem Fits.significand {q : ℚ} {place : Int} (h : Fits q place) {c : Nat}
    (hc : |(c : ℚ) - q / 2 ^ place| ≤ 1 / 2) : c ≤ 2 ^ 53 ∧ (place = -1074 ∨ 2 ^ 52 ≤ c) := by
  have hunit : (0 : ℚ) < 2 ^ place := zpow_pos two_pos _
  obtain ⟨hlow, hhigh⟩ := abs_le.mp hc
  constructor
  · have hquotient : q / 2 ^ place < 2 ^ 53 := (div_lt_iff₀ hunit).mpr h.lt
    have hlt : (c : ℚ) < (2 ^ 53 + 1 : Nat) := by
      push_cast
      linarith
    exact Nat.lt_succ_iff.mp (by exact_mod_cast hlt)
  · refine h.normal.imp_right fun hnormal => ?_
    have hquotient : 2 ^ 52 ≤ q / 2 ^ place := (le_div_iff₀ hunit).mpr hnormal
    have hlt : ((2 ^ 52 : Nat) : ℚ) < (c + 1 : Nat) := by
      push_cast
      linarith
    exact Nat.lt_succ_iff.mp (by exact_mod_cast hlt)

theorem Fits.place_le {q : ℚ} {place : Int} (h : Fits q place) (hq : q < 2 ^ 1023) :
    place ≤ 970 := by
  obtain rfl | hnormal := h.normal
  · decide
  · have hlt : (2 : ℚ) ^ (52 + place) < 2 ^ (1023 : Int) := by
      rw [zpow_add₀ two_ne_zero]
      exact_mod_cast hnormal.trans_lt hq
    have := (zpow_lt_zpow_iff_right₀ one_lt_two).mp hlt
    omega

/-- The quotient of two numbers becomes a double that is nearest to it, as far as it is not too
large for one. -/
theorem ofRatio_nearest (negative : Bool) {num den : Nat} (hden : den ≠ 0)
    (hlt : (num : ℚ) / den < 2 ^ 1023) : ∃ significand exponent,
      (ofRatio negative num den).datum = .finite negative significand exponent ∧
        Nearest (significand * 2 ^ exponent) (num / den) := by
  by_cases hnum : num = 0
  · refine ⟨0, -1074, ?_, fun y t _ => ?_⟩
    · rw [ofRatio, if_pos hnum, ← Nat.add_zero (signBit negative),
        datum_ofNat negative (by decide)]
      rfl
    · rw [hnum, Nat.cast_zero, zero_mul, zero_div, sub_zero, abs_zero]
      exact abs_nonneg _
  · have hfits := lastPlace_fits hnum hden
    have hmost := hfits.place_le hlt
    have hshifted : 0 < den <<< (lastPlace num den).toNat :=
      Nat.shiftLeft_pos_iff.mpr (Nat.pos_of_ne_zero hden)
    have hnear := Rounding.abs_halfEven_sub_le (num <<< (-lastPlace num den).toNat) hshifted
    rw [cast_shift_div_neg] at hnear
    obtain ⟨hc, hnormal⟩ := hfits.significand hnear
    obtain ⟨significand, exponent, hdatum, hvalue⟩ :=
      datum_written negative hc hfits.least hmost hnormal
    refine ⟨significand, exponent, ?_, hvalue ▸ nearest_of_fits hfits hnear⟩
    rw [← hdatum, ofRatio, if_neg hnum]
    refine congrArg datum (if_neg (Nat.not_le.mpr ?_))
    rw [Nat.shiftLeft_eq 2047, Nat.shiftLeft_eq (lastPlace num den + 1074).toNat]
    omega

namespace Nearest

variable {u q : ℚ}

theorem le_of_le (h : Nearest u q) {y : Binary64} {t : ℚ} (hy : y.value? = some t) (ht : t ≤ q) :
    t ≤ u := by
  by_contra hu
  rw [not_le] at hu
  have hnear := h y t hy
  rw [abs_of_neg (by linarith), abs_of_nonpos (by linarith)] at hnear
  linarith

theorem lt_of_lt (h : Nearest u q) {y : Binary64} {t b : ℚ} (hy : y.value? = some t) (ht : t < b)
    (hq : 2 * q < t + b) : u < b := by
  by_contra hu
  rw [not_lt] at hu
  have hnear := h y t hy
  rw [abs_of_nonneg (by linarith)] at hnear
  obtain hle | hlt := le_or_gt t q
  · rw [abs_of_nonpos (by linarith)] at hnear
    linarith
  · rw [abs_of_pos (by linarith)] at hnear
    linarith

variable {k : Int}

theorem two_zpow_le (h : Nearest u q) (hleast : -1000 ≤ k) (hmost : k ≤ 1000) (hq : 2 ^ k ≤ q) :
    2 ^ k ≤ u := by
  obtain ⟨y, hy⟩ := exists_double (2 ^ 52) (k - 52) le_rfl (by decide) (by omega) (by omega)
  have hvalue : ((2 ^ 52 : Nat) : ℚ) * 2 ^ (k - 52) = 2 ^ k := by
    rw [zpow_sub₀ two_ne_zero, zpow_ofNat, Nat.cast_pow, Nat.cast_ofNat]
    exact mul_div_cancel₀ _ (by norm_num)
  rw [hvalue] at hy
  exact h.le_of_le hy hq

theorem lt_two_zpow (h : Nearest u q) (hleast : -1000 ≤ k) (hmost : k ≤ 1000)
    (hq : q < (1 - 1 / 2 ^ 54) * 2 ^ k) : u < 2 ^ k := by
  obtain ⟨y, hy⟩ := exists_double (2 ^ 53 - 1) (k - 53) (by decide) (by decide) (by omega)
    (by omega)
  have hpos : (0 : ℚ) < 2 ^ k := zpow_pos two_pos _
  have hvalue : ((2 ^ 53 - 1 : Nat) : ℚ) * 2 ^ (k - 53) = (1 - 1 / 2 ^ 53) * 2 ^ k := by
    rw [zpow_sub₀ two_ne_zero, zpow_ofNat]
    norm_num
    ring
  rw [hvalue] at hy
  exact h.lt_of_lt hy (by linarith) (by linarith)

end Nearest

def wholePart (negative : Bool) (u : ℚ) : Int := if negative then -(⌊u⌋₊ : Int) else ⌊u⌋₊

theorem truncate_eq (negative : Bool) (significand : Nat) (exponent : Int) :
    truncate negative significand exponent = wholePart negative (significand * 2 ^ exponent) := by
  have hshift := cast_shift_div significand 1 exponent
  rw [Nat.cast_one, div_one] at hshift
  rw [truncate, wholePart, ← hshift, Nat.floor_div_eq_div, Nat.shiftRight_eq_div_pow,
    Nat.one_shiftLeft]

end Binary64

end SignalPool
