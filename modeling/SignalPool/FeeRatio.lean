import SignalPool.Binary64
import SignalPool.Fault

namespace SignalPool.FeeRatio

def percentage (ratio : Int) : Binary64 := .ofQuotient (ratio * 100) 65536

/-- A ratio has no more digits than can be written, for it was computed from a double. -/
inductive Fault where
  | notANumber
  | infinite
  | overflow (o : Overflow)
  deriving DecidableEq, Repr

namespace Fault

def message : Fault → String
  | notANumber => "cannot convert float NaN to integer"
  | infinite => "cannot convert float infinity to integer"
  | overflow o => o.message

end Fault

def hundredth (negative : Bool) (significand : Nat) (exponent : Int) : Binary64 :=
  .ofRatio negative (significand <<< exponent.toNat) (100 <<< (-exponent).toNat)

/-- Two to the sixteenth times a double, divided by a hundred. The product is exact unless it
leaves the range of doubles. -/
def scaled (p : Binary64) : Binary64 :=
  match p.datum with
  | .nan => p
  | .infinite _ => p
  | .finite negative significand exponent =>
    if 1 <<< 1024 <<< (-(exponent + 16)).toNat ≤ significand <<< (exponent + 16).toNat then
      .infinity negative
    else hundredth negative significand (exponent + 16)

def ofPercentage (p : Binary64) : Except Fault Int :=
  match (scaled p).datum with
  | .nan => .error .notANumber
  | .infinite _ => .error .infinite
  | .finite negative significand exponent =>
    let ratio := Binary64.truncate negative significand exponent
    if 0 ≤ ratio ∧ ratio < Width.u16.bound then .ok ratio
    else .error (.overflow ⟨.word .u16, ratio⟩)

example :
    (ofPercentage ⟨0x4049000000000000⟩).toOption = some 32768 := by decide +kernel

end SignalPool.FeeRatio
