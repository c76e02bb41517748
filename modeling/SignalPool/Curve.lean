import SignalPool.Word

namespace SignalPool.Curve

def prime : Nat := 1 <<< 255 - 19

def coefficient : Nat :=
  0x52036cee2b6ffe738cc740797779e89800700a4d4141d8ab75eb4dca135978a3

theorem coefficient_mul : (coefficient * 121666 + 121665) % prime = 0 := by decide +kernel

def power (x : Nat) : Nat → Nat → Nat
  | 0, _ => 1
  | k + 1, e =>
    let root := power x k (e / 2)
    root * root % prime * (if e % 2 = 1 then x else 1) % prime

theorem power_mod (x k e : Nat) (he : e < Nat.pow 2 k) :
    power x k e % prime = Nat.pow x e % prime := by
  induction k generalizing e with
  | zero =>
    have : e = 0 := Nat.lt_one_iff.mp he
    simp [power, this]
  | succ k ih =>
    have hk : e / 2 < Nat.pow 2 k := by
      have hs : e < Nat.pow 2 k * 2 := he
      omega
    have hr : power x k (e / 2) % prime = x ^ (e / 2) % prime := ih _ hk
    show power x (k + 1) e % prime = x ^ e % prime
    have hx : x ^ (e / 2) * x ^ (e / 2) * x ^ (e % 2) = x ^ e := by
      rw [← Nat.pow_add, ← Nat.pow_add]
      congr 1
      omega
    have hm : (if e % 2 = 1 then x else 1) = x ^ (e % 2) := by
      rcases Nat.mod_two_eq_zero_or_one e with h | h <;> simp [h]
    simp only [power, hm]
    rw [Nat.mod_mod, Nat.mod_mul_mod, Nat.mul_mod, Nat.mul_mod (power x k (e / 2)), hr,
      ← Nat.mul_mod (x ^ (e / 2)), ← Nat.mul_mod, hx]

def isSquare (n : Nat) : Bool :=
  n % prime = 0 || power (n % prime) 255 ((prime - 1) / 2) = 1

/-- Whether the bytes, without their top bit, are the second coordinate of a point. -/
def isPoint (bs : Bytes) : Bool :=
  let y := bs.littleEndian % (1 <<< 255) % prime
  let u := (y * y + (prime - 1)) % prime
  let v := (coefficient * (y * y) + 1) % prime
  isSquare (u * v)

end SignalPool.Curve
