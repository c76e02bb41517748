import SignalPool.Curve
import SignalPool.Fault
import SignalPool.Identity
import SignalPool.Seed
import SignalPool.Sha256

namespace SignalPool.Address

inductive Fault where
  | format (f : FormatFault)
  | range (f : RangeFault)
  | onCurve
  | noBump
  deriving DecidableEq, Repr

namespace Fault

def message : Fault → String
  | format f => f.message
  | range f => f.message
  | onCurve => "Provided seeds do not result in a valid address"
  | noBump => "Unable to find a viable program address bump seed"

end Fault

def marker : Bytes :=
  [80, 114, 111, 103, 114, 97, 109, 68, 101, 114, 105, 118, 101, 100, 65, 100, 100, 114, 101, 115,
    115]

example : String.ofList (marker.map (fun b => Char.ofNat b.toNat)) =
    "ProgramDerivedAddress" := by decide +kernel

def candidate (seeds : List Bytes) (program : Key) : Key :=
  ⟨Sha256.digest (seeds.flatten ++ program.bytes ++ marker), Sha256.length_digest _⟩

/-- The address that seeds give under a program; one that is a point of the curve could have an
owner and is refused. -/
def derive (seeds : List Bytes) (program : Key) : Except Fault Key :=
  if Curve.isPoint (candidate seeds program).bytes then .error .onCurve
  else .ok (candidate seeds program)

def search (seeds : List Bytes) (program : Key) : Nat → Except Fault Key
  | 0 => .error .noBump
  | n + 1 =>
    match derive (seeds ++ [[UInt8.ofNat n]]) program with
    | .ok k => .ok k
    | .error _ => search seeds program n

/-- The first address that seeds give with a bump byte after them. -/
def find (seeds : List Bytes) (program : Key) : Except Fault Key := search seeds program 256

def pool (seed : Bytes) (program : Key) : Except Fault Key := do
  let seed ← (Seed.check seed).mapError .format
  derive [seed] program

def poolMint (seed : Bytes) (program : Key) : Except Fault Key := do
  let seed ← (Seed.check seed).mapError .format
  derive [seed, [1]] program

def vaultSigner (market : Key) (nonce : Int) (venueProgram : Key) : Except Fault Key := do
  let nonce ← (Width.u64.encode nonce).mapError .range
  derive [market.bytes, nonce] venueProgram

def associated (owner mint tokenProgram associatedTokenProgram : Key) : Except Fault Key :=
  find [owner.bytes, tokenProgram.bytes, mint.bytes] associatedTokenProgram

end SignalPool.Address
