import SignalPool.Text.Blank
import SignalPool.Transaction
import SignalPool.Warning

namespace SignalPool

inductive InnerData where
  | text (t : Text)
  | bytes (bs : Bytes)

structure InnerInstruction where
  program : Nat
  accounts : List Nat
  data : InnerData

structure LoadedKeys where
  writable : List Key
  readOnly : List Key

structure FetchedMeta where
  inner : List (Int × Invoked InnerInstruction)
  loaded : Option LoadedKeys

structure Fetched where
  slot : Int
  keys : List Key
  instructions : List Compiled
  outcome : Option FetchedMeta

namespace InnerData

/-- Text is read without the blanks at its end. -/
def decode : InnerData → Except DataFault Bytes
  | bytes bs => .ok bs
  | text t => do
    let cs ← (Text.encodable .ascii t.trimEnd).mapError .gap
    (Base58.decode cs).mapError .character

end InnerData

namespace InnerInstruction

def compile (i : InnerInstruction) : Except DataFault Compiled := do
  let data ← i.data.decode
  return { program := i.program, accounts := i.accounts, data }

def compileAll : (is : List InnerInstruction) →
    Except DataFault { cs : List Compiled // cs.length = is.length }
  | [] => .ok ⟨[], rfl⟩
  | i :: is => do
    let c ← i.compile
    let cs ← compileAll is
    return ⟨c :: cs.1, congrArg Nat.succ cs.2⟩

end InnerInstruction

def Invoked.compile (is : Invoked InnerInstruction) : Except DataFault (Invoked Compiled) :=
  (InnerInstruction.compileAll is.toList).map fun cs =>
    ⟨cs.1, Nat.lt_of_le_of_lt (Nat.le_of_eq cs.2) is.short⟩

namespace FetchedMeta

/-- The inner instructions by place; a later entry of a place replaces an earlier one. -/
def compileInner : List (Int × Invoked InnerInstruction) →
    Except DataFault (List (Int × Invoked Compiled))
  | [] => .ok []
  | (place, is) :: rest => do
    let cs ← is.compile
    let more ← compileInner rest
    return (place, cs) :: more

def loadedKeys (m : FetchedMeta) : List Key :=
  match m.loaded with
  | some l => l.writable ++ l.readOnly
  | none => []

end FetchedMeta

namespace Fetched

/-- The account table: loaded keys stand after the transaction's own, writable ones first. -/
def allKeys (t : Fetched) : List Key :=
  t.keys ++ ((t.outcome.map FetchedMeta.loadedKeys).getD [])

def toTransaction (t : Fetched) (signature : Text) : Except DataFault Transaction := do
  let inner ← FetchedMeta.compileInner ((t.outcome.map FetchedMeta.inner).getD [])
  return { signature, slot := t.slot, keys := t.allKeys, instructions := t.instructions,
           inner := Table.ofList inner }

end Fetched

end SignalPool
