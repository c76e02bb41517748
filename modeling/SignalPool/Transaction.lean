import SignalPool.Reader
import SignalPool.Table

namespace SignalPool

structure Compiled where
  program : Nat
  accounts : List Nat
  data : Bytes
  deriving DecidableEq

/-- The instructions that an instruction invoked; a machine word can count them. -/
structure Invoked (α : Type) where
  toList : List α
  short : toList.length < Width.u64.bound
  deriving DecidableEq

/-- A confirmed transaction. The instructions that a top-level instruction invoked stand under its
place; entries under other numbers belong to none. -/
structure Transaction where
  signature : Text
  slot : Int
  keys : List Key
  instructions : List Compiled
  inner : Table Int (Invoked Compiled)
  deriving DecidableEq

structure Transfer where
  destination : Key
  amount : Nat
  deriving DecidableEq

namespace Compiled

def programKey? (c : Compiled) (keys : List Key) : Option Key := keys[c.program]?

def account? (c : Compiled) (keys : List Key) (position : Nat) : Option Key := do
  let place ← c.accounts[position]?
  keys[place]?

def account (c : Compiled) (keys : List Key) (position : Nat) : Except FormatFault Key :=
  match c.account? keys position with
  | some k => .ok k
  | none => .error (.accountMissing position)

def transferCode : UInt8 := 3

/-- The token transfer that an instruction makes: nine bytes of data or more, the amount after the
first of them, and the destination as second account. -/
def transfer? (c : Compiled) (keys : List Key) (tokenProgram : Key) : Option Transfer :=
  if c.programKey? keys ≠ some tokenProgram then none
  else if c.data.length < 9 ∨ c.data.head? ≠ some transferCode then none
  else
    (c.account? keys 1).map fun destination =>
      { destination, amount := Bytes.littleEndian ((c.data.drop 1).take 8) }

end Compiled

end SignalPool
