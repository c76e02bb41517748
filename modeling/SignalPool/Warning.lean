import SignalPool.Decimal
import SignalPool.Fault
import SignalPool.Key
import SignalPool.Signature
import SignalPool.Text.Quoted

namespace SignalPool

inductive ReadFault where
  | absent (address : Key)
  | format (f : FormatFault)
  deriving DecidableEq

namespace ReadFault

def message : ReadFault → String
  | absent address => "Account not found: " ++ address.text
  | format f => f.message

end ReadFault

inductive DataFault where
  | character (c : Char)
  | gap (g : Text.Gap)
  deriving DecidableEq

namespace DataFault

def message : DataFault → String
  | character c => "Invalid character " ++ Text.quoted ⟨[c.toNat]⟩
  | gap g => g.message

end DataFault

inductive TransactionFault where
  | signature (f : Signature.TextFault)
  | connection (reason : Text)
  | data (f : DataFault)
  deriving DecidableEq

namespace TransactionFault

def message : TransactionFault → Text
  | signature f => f.message
  | connection reason => reason
  | data f => f.message

end TransactionFault

inductive RestateFault where
  | noDecimals (mint : Key)
  | format (f : FormatFault)
  | decimal (f : Decimal.Fault)
  deriving DecidableEq

namespace RestateFault

/-- A missing mint is shown on three lines. -/
def message : RestateFault → String
  | noDecimals mint =>
    let shown := mint.text
    s!"Pubkey(\n    {shown},\n)"
  | format f => f.message
  | decimal f => f.message

end RestateFault

inductive Effect where
  | order | settle
  deriving DecidableEq, Repr

namespace Effect

def name : Effect → String
  | order => "create order"
  | settle => "settle"

end Effect

inductive Warning where
  | noEffect (effect : Effect) (openOrders : Option Key) (signature : Text)
  | instructionSkipped (place : Nat) (signature : Text) (f : FormatFault)
  | accountSkipped (address : Key) (f : FormatFault)
  | transactionLost (signature : Text) (f : Option TransactionFault)
  | marketSkipped (market : Key) (f : ReadFault)
  | decimalsUnknown (mint : Key) (f : ReadFault)
  | orderSkipped (signature : Text) (f : RestateFault)
  deriving DecidableEq

namespace Warning

def text : Warning → Text
  | noEffect effect none signature =>
    effect.name ++ " had no effect in transaction " ++ signature
  | noEffect effect (some openOrders) signature =>
    effect.name ++ " had no effect for " ++ openOrders.text ++ " in transaction " ++ signature
  | instructionSkipped place signature f =>
    s!"Skipping instruction {place} of transaction " ++ signature ++ ": " ++ f.message
  | accountSkipped address f => "Skipping account " ++ address.text ++ ": " ++ f.message
  | transactionLost signature f =>
    let cause := (f.map TransactionFault.message).getD "not found"
    "Could not retrieve transaction " ++ signature ++ ": " ++ cause
  | marketSkipped market f => "Skipping orders on market " ++ market.text ++ ": " ++ f.message
  | decimalsUnknown mint f =>
    "Could not resolve decimals of mint " ++ mint.text ++ ": " ++ f.message
  | orderSkipped signature (.noDecimals mint) =>
    let cause := (RestateFault.noDecimals mint).message
    "Skipping order " ++ signature ++ ": no decimals for mint " ++ cause
  | orderSkipped signature f => "Skipping order " ++ signature ++ ": " ++ f.message

end Warning

end SignalPool
