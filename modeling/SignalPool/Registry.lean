import SignalPool.Identity
import SignalPool.Table
import SignalPool.Value

namespace SignalPool

structure Listing where
  address : Key
  name : Value
  program : Key
  deprecated : Bool

namespace Listing

inductive Fault where
  | noAddress
  | key (f : Key.TextFault)
  | wrongType
  deriving DecidableEq, Repr

def keyOf : Value → Except Fault Key
  | .text t => (Key.parse t).mapError .key
  | _ => .error .wrongType

/-- A record must have an address; a market without a program trades on the known venue. -/
def ofFields (fields : List (Text × Value)) : Except Fault Listing := do
  let address ←
    match Value.field? fields "address" with
    | some v => keyOf v
    | none => .error .noAddress
  let program ←
    match Value.field? fields "programId" with
    | some v => keyOf v
    | none => .ok Identity.venueProgram
  return {
    address
    name := (Value.field? fields "name").getD (.text .empty)
    program
    deprecated := ((Value.field? fields "deprecated").getD (.bool false)).isSet }

def ofValue : Value → Except Fault Listing
  | .record fields => ofFields fields
  | _ => .error .wrongType

end Listing

/-- The markets a pool may be created with, in the order of the published list. -/
structure Registry where
  listed : List Listing

namespace Registry

def ofValues (vs : List Value) : Except Listing.Fault Registry := do
  let listed ← vs.mapM Listing.ofValue
  return { listed }

/-- The listings by market; a later listing of a market replaces an earlier one. -/
def byMarket (r : Registry) : Table Key Listing :=
  Table.ofList (r.listed.map fun l => (l.address, l))

def get? (r : Registry) (market : Key) : Option Listing := r.byMarket.get? market

def contains (r : Registry) (market : Key) : Bool := (r.get? market).isSome

def size (r : Registry) : Nat := r.byMarket.length

def findByName (r : Registry) (name : Value) : Option Listing :=
  r.listed.reverse.find? (fun l => l.name.same name)

inductive Refusal where
  | unauthorized (market : Key)
  | deprecated (market : Key)
  deriving DecidableEq

namespace Refusal

def message : Refusal → String
  | unauthorized market => "Market is not authorized: " ++ market.text
  | deprecated market => "Given market is deprecated: " ++ market.text

end Refusal

def check (r : Registry) (market : Key) : Except Refusal Unit :=
  match r.get? market with
  | none => .error (.unauthorized market)
  | some l => if l.deprecated then .error (.deprecated market) else .ok ()

/-- Every market must be listed and not retired; the first that is not is the failure. -/
def validate (r : Registry) : List Key → Except Refusal Unit
  | [] => .ok ()
  | market :: markets => do
    r.check market
    validate r markets

inductive Response where
  | timeout
  | failure (reason : Text)
  | answer (status : Int) (body : Value)

inductive Unavailable where
  | status (code : Int)
  | timeout
  | failure (reason : Text)
  | notAList
  | malformed (f : Listing.Fault)
  deriving DecidableEq, Repr

def ofResponse : Response → Except Unavailable Registry
  | .timeout => .error .timeout
  | .failure reason => .error (.failure reason)
  | .answer status body =>
    if 400 ≤ status then .error (.status status)
    else
      match body with
      | .list vs => (ofValues vs).mapError .malformed
      | _ => .error .notAList

inductive SessionStep where
  | opened | requested | closed
  deriving DecidableEq

/-- The list is requested over a session that is given, or over one that is opened for the request
and closed after it, whatever came of it. -/
def fetch (given : Bool) (response : Response) :
    List SessionStep × Except Unavailable Registry :=
  (if given then [.requested] else [.opened, .requested, .closed], ofResponse response)

theorem count_closed_fetch (given : Bool) (response : Response) :
    (fetch given response).1.count .closed = (fetch given response).1.count .opened := by
  cases given <;> rfl

end Registry

namespace Listing.Fault

def message : Listing.Fault → String
  | noAddress => "'address'"
  | key f => f.message
  | wrongType => ""

end Listing.Fault

namespace Registry.Unavailable

def reason : Registry.Unavailable → Text
  | status code => s!"HTTP {code} fetching market list"
  | timeout => "Timed out fetching market list"
  | failure reason => "Could not fetch market list (" ++ reason ++ ")"
  | notAList => "Market list is not a JSON array"
  | malformed .wrongType => "Malformed market list entry"
  | malformed f =>
    let cause := f.message
    s!"Malformed market list entry ({cause})"

def message (u : Registry.Unavailable) (url : Text) : Text := u.reason ++ ": " ++ url

end Registry.Unavailable

end SignalPool
