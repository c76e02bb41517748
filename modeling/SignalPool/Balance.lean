import SignalPool.Binary64
import SignalPool.Key

namespace SignalPool

structure TokenBalance where
  mint : Key
  amount : Int
  decimals : Int
  deriving DecidableEq

structure PoolBalances where
  supply : TokenBalance
  assets : List TokenBalance
  deriving DecidableEq

namespace TokenBalance

inductive Fault where
  | quotientTooLarge
  | numberTooLarge
  | divisionByZero
  deriving DecidableEq, Repr

namespace Fault

def message : Fault → String
  | quotientTooLarge => "integer division result too large for a float"
  | numberTooLarge => "int too large to convert to float"
  | divisionByZero => "float division by zero"

end Fault

def rounded (n : Int) : Except Fault Binary64 :=
  let x := Binary64.ofQuotient n 1
  if x.isInfinite then .error .numberTooLarge else .ok x

def mostPlaces : Nat := 323

/-- The amount in human units, as the nearest double. With negative decimals the amount and the
power of ten are rounded to doubles before the one is divided by the other. -/
def uiAmount (b : TokenBalance) : Except Fault Binary64 :=
  match b.decimals with
  | .ofNat d =>
    let x := Binary64.ofQuotient b.amount (Nat.pow 10 d)
    if x.isInfinite then .error .quotientTooLarge else .ok x
  | .negSucc d => do
    let _ ← rounded (d + 1)
    let x ← rounded b.amount
    if mostPlaces < d + 1 then throw .divisionByZero
    match x.quotient? (.ofRatio false 1 (Nat.pow 10 (d + 1))) with
    | some y => return y
    | none => throw .divisionByZero

end TokenBalance

end SignalPool
