import SignalPool.History
import SignalPool.Order

namespace SignalPool

/-- A client, and the configuration that says whose activity is meant and how far back. -/
structure Reconstructor where
  client : Client
  config : Config

namespace Reconstructor

variable (r : Reconstructor)

def events (pool : TrackedPool) (txs : List Transaction) : List PoolEvent :=
  txs.flatMap fun tx => tx.events pool r.config.poolProgram r.config.tokenProgram

def eventWarnings (pool : TrackedPool) (txs : List Transaction) : List Warning :=
  txs.flatMap fun tx => tx.warnings pool r.config.poolProgram r.config.tokenProgram

/-- Reads something for each key; a key for which it fails is reported and left out. -/
def resolve {α : Type} (read : Key → Trace (Except ReadFault α))
    (report : Key → ReadFault → Warning) : List Key → Trace (Table Key α)
  | [] => pure []
  | k :: ks => do
    match ← read k with
    | .ok a =>
      let rest ← resolve read report ks
      return (k, a) :: rest
    | .error f =>
      Trace.warn [report k f]
      resolve read report ks

def marketsOf (paired : List PairedOrder) : List Key :=
  (paired.map (·.order.market)).eraseDups

def mintsOf (markets : Table Key Market) (p : PairedOrder) : List Key :=
  match markets.get? p.order.market with
  | none => []
  | some m =>
    m.sourceMint p.order.terms.side ::
      ((p.settle.map SettleEvent.amounts).getD []).map MintAmount.mint

def mintsOfAll (markets : Table Key Market) (paired : List PairedOrder) : List Key :=
  (paired.flatMap (mintsOf markets)).eraseDups

/-- An order in human units, or why it is left out; nothing more is said of an order whose market
is not known. -/
def restated (markets : Table Key Market) (decimals : Table Key Int) (p : PairedOrder) :
    Option Order × List Warning :=
  match markets.get? p.order.market with
  | none => (none, [])
  | some m =>
    match Order.ofPaired p m decimals with
    | .ok o => (some o, [])
    | .error f => (none, [.orderSkipped p.order.signature f])

/-- The latest orders of a pool in human units, newest first, each with its settlement. -/
def orders (pool : TrackedPool) (txs : List Transaction) (limit : Int) : Trace (List Order) := do
  Trace.warn (r.eventWarnings pool txs)
  let recent := Pairing.selectRecent (Pairing.pair (r.events pool txs)) limit
  let markets ← resolve r.client.readMarket .marketSkipped (marketsOf recent)
  let decimals ← resolve r.client.readDecimals .decimalsUnknown (mintsOfAll markets recent)
  let outcomes := recent.map (restated markets decimals)
  Trace.warn (outcomes.flatMap Prod.snd)
  return outcomes.filterMap Prod.fst

def history (address : Key) (limit : Option Int) : Trace (List Transaction) :=
  History.fetch r.client.node address (limit.getD r.config.signatureLimit)

def poolOrders (seed : Bytes) (limit : Int) : Client.Run (List Order) := do
  let info ← r.client.poolInfo seed
  let txs ← ExceptT.lift (r.history info.address none)
  ExceptT.lift (r.orders info.tracked txs limit)

end Reconstructor

end SignalPool
