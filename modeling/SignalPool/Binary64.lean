import SignalPool.Rounding

namespace SignalPool

structure Binary64 where
  bits : UInt64
  deriving DecidableEq, Repr

namespace Binary64

inductive Datum where
  | nan
  | infinite (negative : Bool)
  | finite (negative : Bool) (significand : Nat) (exponent : Int)
  deriving DecidableEq, Repr

def hidden : Nat := 1 <<< 52

def datum (x : Binary64) : Datum :=
  let n := x.bits.toNat
  let negative := decide (n >>> 63 = 1)
  let biased : Nat := (n >>> 52) % 2048
  let fraction : Nat := n % hidden
  if biased = 2047 then
    if fraction = 0 then .infinite negative else .nan
  else if biased = 0 then .finite negative fraction (-1074)
  else .finite negative (hidden + fraction) ((biased : Int) - 1075)

def signBit (negative : Bool) : Nat := if negative then 1 <<< 63 else 0

def infinity (negative : Bool) : Binary64 := ⟨.ofNat (signBit negative + 2047 <<< 52)⟩

/-- The exponent of the last place of the double nearest to `num / den`: fifty-two below that of
the leading bit, yet never below that of the least positive double. -/
def lastPlace (num den : Nat) : Int :=
  let guess : Int := num.log2 - den.log2
  let lead :=
    if den <<< guess.toNat ≤ num <<< (-guess).toNat then guess else guess - 1
  max (lead - 52) (-1074)

/-- The double nearest to `num / den` with the given sign; of two equally near the one whose last
bit is zero, and an infinity past the largest. -/
def ofRatio (negative : Bool) (num den : Nat) : Binary64 :=
  if num = 0 then ⟨.ofNat (signBit negative)⟩
  else
    let place := lastPlace num den
    let significand := Rounding.halfEven (num <<< (-place).toNat) (den <<< place.toNat)
    let magnitude := (place + 1074).toNat <<< 52 + significand
    if 2047 <<< 52 ≤ magnitude then infinity negative
    else ⟨.ofNat (signBit negative + magnitude)⟩

def ofQuotient (num : Int) (den : Nat) : Binary64 :=
  ofRatio (decide (num < 0)) num.natAbs den

/-- The double nearest to `digits * 10 ^ exponent`. An exponent that takes every number past the
largest double, or this one below half of the least, is not worked out. -/
def ofDecimal (negative : Bool) (digits : Nat) (exponent : Int) : Binary64 :=
  if digits = 0 ∨ digits.log2 + 1 + 3 * exponent ≤ -1075 then ⟨.ofNat (signBit negative)⟩
  else if 309 ≤ exponent then infinity negative
  else ofRatio negative (digits * Nat.pow 10 exponent.toNat) (Nat.pow 10 (-exponent).toNat)

def isZero (x : Binary64) : Bool :=
  match x.datum with
  | .finite _ significand _ => significand = 0
  | _ => false

def isInfinite (x : Binary64) : Bool :=
  match x.datum with
  | .infinite _ => true
  | _ => false

def isWhole (x : Binary64) (n : Int) : Bool :=
  match x.datum with
  | .finite negative significand exponent =>
    significand <<< exponent.toNat = n.natAbs <<< (-exponent).toNat &&
      (significand = 0 || negative = decide (n < 0))
  | _ => false

def same (x y : Binary64) : Bool :=
  match x.datum with
  | .nan => false
  | _ => x = y || x.isZero && y.isZero

def truncate (negative : Bool) (significand : Nat) (exponent : Int) : Int :=
  let magnitude := significand <<< exponent.toNat >>> (-exponent).toNat
  if negative then -(magnitude : Int) else magnitude

def quotient? (x y : Binary64) : Option Binary64 :=
  match x.datum, y.datum with
  | .finite nx sx ex, .finite ny sy ey =>
    if sy = 0 then none
    else some (ofRatio (nx != ny) (sx <<< (ex - ey).toNat) (sy <<< (ey - ex).toNat))
  | _, _ => none

example :
    [ofRatio false 1 3, ofRatio false 1 (1 <<< 1074), ofRatio true 1 (1 <<< 1075),
      ofRatio false (1 <<< 1024) 1, ofDecimal false 1 (-1), ofDecimal true 1 (-400)] =
      [⟨0x3fd5555555555555⟩, ⟨1⟩, ⟨0x8000000000000000⟩, infinity false, ⟨0x3fb999999999999a⟩,
        ⟨0x8000000000000000⟩] := by
  decide +kernel

end Binary64

end SignalPool
