import SignalPool.Client
import SignalPool.Ranking

namespace SignalPool.History

variable (node : Node)

def signatures (address : Key) (limit : Int) : Trace (List SignatureInfo) :=
  Trace.ask (.signatures address limit) (node.signatures address limit)

def transactionOf (signature : Text) :
    Except Text (Option Fetched) → Except TransactionFault (Option Transaction)
  | .error reason => .error (.connection reason)
  | .ok none => .ok none
  | .ok (some fetched) => ((fetched.toTransaction signature).map some).mapError .data

/-- Asks for a transaction; a text that is no signature is refused before anything is asked. -/
def transaction (signature : Text) : Trace (Except TransactionFault (Option Transaction)) :=
  match Signature.parse signature with
  | .error f => pure (.error (.signature f))
  | .ok s => do
    let answer ← Trace.ask (.transaction s) (node.transaction s)
    return transactionOf signature answer

def kept (signature : Text) :
    Except TransactionFault (Option Transaction) → Option Transaction × List Warning
  | .error f => (none, [.transactionLost signature (some f)])
  | .ok none => (none, [.transactionLost signature none])
  | .ok (some tx) => (some tx, [])

def transactions : List SignatureInfo → Trace (List Transaction)
  | [] => pure []
  | info :: infos => do
    let answer ← transaction node info.signature
    let (found, warnings) := kept info.signature answer
    Trace.warn warnings
    let rest ← transactions infos
    return found.toList ++ rest

def fetch (address : Key) (limit : Int) : Trace (List Transaction) := do
  let infos ← signatures node address limit
  let found ← transactions node infos
  return Ranking.newestFirst Transaction.slot found

end SignalPool.History
