import SignalPool.Radix

namespace SignalPool.Hex

def digitsOf (n : Nat) : List Char := (Radix.digits 16 n).map Nat.digitChar

def digit? (c : Char) : Option Nat :=
  if '0' ≤ c ∧ c ≤ '9' then some (c.toNat - '0'.toNat)
  else if 'a' ≤ c ∧ c ≤ 'f' then some (c.toNat - 'a'.toNat + 10)
  else if 'A' ≤ c ∧ c ≤ 'F' then some (c.toNat - 'A'.toNat + 10)
  else none

/-- A number to base sixteen after its sign and `0x`, with zeros up to `width` characters. -/
def padded (width : Nat) (n : Int) : String :=
  let lead := if n < 0 then ['-', '0', 'x'] else ['0', 'x']
  let ds := if n = 0 then ['0'] else digitsOf n.natAbs
  String.ofList (lead ++ List.replicate (width - (lead.length + ds.length)) '0' ++ ds)

example : [127, 1, 256, -1].map (padded 4) = ["0x7f", "0x01", "0x100", "-0x1"] := by
  decide +kernel

end SignalPool.Hex
