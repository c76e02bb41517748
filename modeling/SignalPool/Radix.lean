namespace SignalPool.Radix

/-- At most `k` digits of `n` to the given base, lowest digit first, ending before zeros. -/
def lowDigits (base : Nat) : Nat → Nat → List Nat
  | 0, _ => []
  | k + 1, n => if n = 0 then [] else n % base :: lowDigits base k (n / base)

def digits (base n : Nat) : List Nat :=
  (lowDigits base (n.log2 + 1) n).reverse

def value (base : Nat) (ds : List Nat) : Nat :=
  ds.foldl (fun acc d => acc * base + d) 0

theorem value_append_singleton (base : Nat) (ds : List Nat) (d : Nat) :
    value base (ds ++ [d]) = value base ds * base + d := by
  simp [value, List.foldl_append]

theorem value_lowDigits (base k n : Nat) (hb : 2 ≤ base) (hn : n < Nat.pow 2 k) :
    value base (lowDigits base k n).reverse = n := by
  induction k generalizing n with
  | zero =>
    have : n = 0 := Nat.lt_one_iff.mp hn
    simp [lowDigits, value, this]
  | succ k ih =>
    by_cases h : n = 0
    · simp [lowDigits, value, h]
    · have hd : n / base < Nat.pow 2 k := by
        have hs : n < Nat.pow 2 k * 2 := hn
        exact Nat.lt_of_le_of_lt (Nat.div_le_div_left hb (by decide)) (by omega)
      rw [lowDigits, if_neg h, List.reverse_cons, value_append_singleton, ih _ hd]
      exact Nat.div_add_mod' n base

theorem value_digits (base n : Nat) (hb : 2 ≤ base) : value base (digits base n) = n :=
  value_lowDigits base _ n hb Nat.lt_log2_self

theorem lt_of_mem_lowDigits (base k n d : Nat) (hb : 0 < base) (hd : d ∈ lowDigits base k n) :
    d < base := by
  induction k generalizing n with
  | zero => simp [lowDigits] at hd
  | succ k ih =>
    by_cases h : n = 0
    · simp [lowDigits, h] at hd
    · rw [lowDigits, if_neg h, List.mem_cons] at hd
      rcases hd with rfl | hd
      · exact Nat.mod_lt _ hb
      · exact ih _ hd

theorem lt_of_mem_digits (base n d : Nat) (hb : 0 < base) (hd : d ∈ digits base n) : d < base :=
  lt_of_mem_lowDigits base _ n d hb (List.mem_reverse.mp hd)

end SignalPool.Radix
