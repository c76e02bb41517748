import SignalPool.Radix
import SignalPool.Rounding

namespace SignalPool

/-- A decimal number of bounded precision: its sign and `coefficient * 10 ^ exponent`. Numbers of
equal value with different exponents are told apart, as they are written differently. -/
structure Decimal where
  negative : Bool
  coefficient : Nat
  exponent : Int
  deriving DecidableEq, Repr

namespace Decimal

def precision : Nat := 28

def digitCount (n : Nat) : Nat := (Radix.digits 10 n).length

def ofInt (n : Int) : Decimal := ⟨decide (n < 0), n.natAbs, 0⟩

inductive Fault where
  | overflow
  | divisionByZero
  | divisionUndefined
  deriving DecidableEq, Repr

namespace Fault

def name : Fault → String
  | overflow => "Overflow"
  | divisionByZero => "DivisionByZero"
  | divisionUndefined => "DivisionUndefined"

def message (f : Fault) : String := "[<class 'decimal." ++ f.name ++ "'>]"

end Fault

/-- The greatest exponent of a first digit; no first digit stands farther behind the point. -/
def mostLead : Nat := 999999

/-- The least exponent of a last digit, without its sign. -/
def mostPlaces : Nat := 1000026

def lead (x : Decimal) : Int := x.exponent + digitCount x.coefficient - 1

def checked (x : Decimal) : Except Fault Decimal :=
  if mostLead < x.lead then .error .overflow else .ok x

def zero (negative : Bool) (exponent : Int) : Decimal :=
  ⟨negative, 0, max (-mostPlaces) (min exponent mostLead)⟩

/-- A coefficient of one digit too many is a power of ten: it is written shorter with the next
exponent. -/
def carry (negative : Bool) (coefficient : Nat) (exponent : Int) : Decimal :=
  if coefficient = Nat.pow 10 precision then ⟨negative, Nat.pow 10 (precision - 1), exponent + 1⟩
  else ⟨negative, coefficient, exponent⟩

/-- The quotient `num / den` times a power of ten, to the digits that fit and to the last place in
range: exact if whole and short enough, else rounded to even at the last digit. -/
def round (negative : Bool) (num den : Nat) (exponent : Int) : Except Fault Decimal :=
  if num = 0 then .ok (zero negative exponent)
  else
    let excess := max (digitCount (num / den) - precision) (-mostPlaces - exponent).toNat
    (carry negative (Rounding.halfEven num (den * Nat.pow 10 excess)) (exponent + excess)).checked

def mul (x y : Decimal) : Except Fault Decimal :=
  round (x.negative != y.negative) (x.coefficient * y.coefficient) 1 (x.exponent + y.exponent)

def dropZeros : Nat → Nat → Nat × Nat
  | 0, n => (n, 0)
  | limit + 1, n =>
    if n % 10 = 0 then
      let (m, count) := dropZeros limit (n / 10)
      (m, count + 1)
    else (n, 0)

theorem dropZeros_mul (limit n : Nat) :
    (dropZeros limit n).1 * Nat.pow 10 (dropZeros limit n).2 = n := by
  induction limit generalizing n with
  | zero => simp [dropZeros]
  | succ limit ih =>
    by_cases h : n % 10 = 0
    · have hn := ih (n / 10)
      have hp (m c : Nat) : m * Nat.pow 10 (c + 1) = m * Nat.pow 10 c * 10 :=
        (Nat.mul_assoc m _ 10).symm
      simp only [dropZeros, h, ↓reduceIte, hp, hn]
      omega
    · simp [dropZeros, h]

/-- The quotient. The dividend is first scaled to one digit more than the precision; an exact
quotient loses zeros at its end until its exponent is the difference of the exponents, any other is
rounded. -/
def div (x y : Decimal) : Except Fault Decimal :=
  let negative := x.negative != y.negative
  let ideal := x.exponent - y.exponent
  if y.coefficient = 0 then
    .error (if x.coefficient = 0 then .divisionUndefined else .divisionByZero)
  else if x.coefficient = 0 then .ok (zero negative ideal)
  else
    let shift : Int := digitCount y.coefficient - digitCount x.coefficient + precision + 1
    let num := x.coefficient * Nat.pow 10 shift.toNat
    let den := y.coefficient * Nat.pow 10 (-shift).toNat
    if num % den = 0 then
      let (coefficient, count) := dropZeros shift.toNat (num / den)
      round negative coefficient 1 (ideal - shift + count)
    else round negative num den (ideal - shift)

/-- A power of ten. The coefficient of a great one never outgrows the precision; one too near zero
is zero. -/
def tenTo : Int → Except Fault Decimal
  | .ofNat d =>
    if mostLead < d then .error .overflow
    else if d < precision then .ok ⟨false, Nat.pow 10 d, 0⟩
    else .ok ⟨false, Nat.pow 10 (precision - 1), (d - (precision - 1) : Nat)⟩
  | .negSucc d =>
    if mostPlaces < d + 1 then .ok (zero false (.negSucc d)) else .ok ⟨false, 1, .negSucc d⟩

def digitChars (n : Nat) : List Char :=
  if n = 0 then ['0'] else (Radix.digits 10 n).map Nat.digitChar

def pointed (ds : List Char) (places : Nat) : List Char :=
  if places = 0 then ds
  else
    let whole := ds.length - places
    if whole = 0 then '0' :: '.' :: List.replicate (places - ds.length) '0' ++ ds
    else ds.take whole ++ '.' :: ds.drop whole

def exponentChars (e : Int) : List Char :=
  'E' :: (if e < 0 then '-' else '+') :: digitChars e.natAbs

/-- Written out if the exponent is not positive and the first digit stands no more than six
places after the point, else with the exponent of the first digit. -/
def chars (x : Decimal) : List Char :=
  let ds := digitChars x.coefficient
  let lead := x.exponent + ds.length - 1
  let sign := if x.negative then ['-'] else []
  if x.exponent ≤ 0 ∧ -6 ≤ lead then sign ++ pointed ds x.exponent.natAbs
  else sign ++ pointed ds (ds.length - 1) ++ exponentChars lead

def text (x : Decimal) : String := String.ofList x.chars

example :
    [⟨false, 1, -6⟩, ⟨false, 15, -8⟩, ⟨false, 0, -3⟩, ⟨false, 0, -73⟩].map text =
      ["0.000001", "1.5E-7", "0.000", "0E-73"] ∧
      (div (ofInt 1) (ofInt 3)).toOption.map text = some "0.3333333333333333333333333333" ∧
      (div (ofInt 1000) (ofInt 8)).toOption.map text = some "125" := by
  decide +kernel

end Decimal

end SignalPool
