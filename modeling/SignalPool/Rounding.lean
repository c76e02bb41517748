namespace SignalPool.Rounding

/-- The whole number nearest to `n / d`; of two equally near the even one. -/
def halfEven (n d : Nat) : Nat :=
  if 2 * (n % d) < d then n / d
  else if d < 2 * (n % d) then n / d + 1
  else n / d + n / d % 2

theorem halfEven_le (n d : Nat) : n / d ≤ halfEven n d := by
  unfold halfEven
  split
  · exact Nat.le_refl _
  · split <;> omega

theorem halfEven_ge (n d : Nat) : halfEven n d ≤ n / d + 1 := by
  unfold halfEven
  split
  · omega
  · split <;> omega

theorem halfEven_of_dvd {n d : Nat} (hd : 0 < d) (h : n % d = 0) : halfEven n d = n / d := by
  simp [halfEven, h, hd]

theorem halfEven_upper (n d : Nat) (hd : 0 < d) : 2 * (d * halfEven n d) ≤ 2 * n + d := by
  have hm := Nat.div_add_mod n d
  have hr := Nat.mod_lt n hd
  have hx : d * (n / d + 1) = d * (n / d) + d := by rw [Nat.mul_add, Nat.mul_one]
  unfold halfEven
  split
  · omega
  · split
    · rw [hx]
      omega
    · rcases Nat.mod_two_eq_zero_or_one (n / d) with hp | hp
      · rw [hp, Nat.add_zero]
        omega
      · rw [hp, hx]
        omega

theorem halfEven_lower (n d : Nat) (hd : 0 < d) : 2 * n ≤ 2 * (d * halfEven n d) + d := by
  have hm := Nat.div_add_mod n d
  have hr := Nat.mod_lt n hd
  have hx : d * (n / d + 1) = d * (n / d) + d := by rw [Nat.mul_add, Nat.mul_one]
  unfold halfEven
  split
  · omega
  · split
    · rw [hx]
      omega
    · rcases Nat.mod_two_eq_zero_or_one (n / d) with hp | hp
      · rw [hp, Nat.add_zero]
        omega
      · rw [hp, hx]
        omega

end SignalPool.Rounding
