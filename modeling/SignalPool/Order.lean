import SignalPool.Decimal
import SignalPool.Market
import SignalPool.Pairing
import SignalPool.Warning

namespace SignalPool

structure Order where
  signature : Text
  slot : Int
  market : Key
  openOrders : Key
  side : Choice Side
  orderType : Choice OrderType
  clientId : Int
  assetRatio : Int
  limitPrice : Decimal
  transferredMint : Key
  transferred : Decimal
  settleSignature : Option Text
  settled : List (MintAmount Decimal)

namespace Order

def isSettled (o : Order) : Bool := o.settleSignature.isSome

/-- A limit price counts quote lots for a base lot. -/
def price (limitPrice pcLotSize coinLotSize : Int) : Except RestateFault Decimal :=
  if coinLotSize = 0 then .error (.format .zeroCoinLot)
  else Except.mapError .decimal do
    let total ← (Decimal.ofInt limitPrice).mul (.ofInt pcLotSize)
    total.div (.ofInt coinLotSize)

def amount (raw decimals : Int) : Except Decimal.Fault Decimal := do
  let unit ← Decimal.tenTo decimals
  (Decimal.ofInt raw).div unit

def amountOf (decimals : Table Key Int) (mint : Key) (raw : Int) : Except RestateFault Decimal :=
  match decimals.get? mint with
  | some d => (amount raw d).mapError .decimal
  | none => .error (.noDecimals mint)

def settledOf (decimals : Table Key Int) :
    List (MintAmount Int) → Except RestateFault (List (MintAmount Decimal))
  | [] => .ok []
  | a :: as => do
    let x ← amountOf decimals a.mint a.amount
    let rest ← settledOf decimals as
    return ⟨a.mint, x⟩ :: rest

/-- Restates a paired order: the settled amounts first, then the price, then what was paid. -/
def ofPaired (p : PairedOrder) (market : Market) (decimals : Table Key Int) :
    Except RestateFault Order := do
  let terms := p.order.terms
  let mint := market.sourceMint terms.side
  let settled ← settledOf decimals ((p.settle.map SettleEvent.amounts).getD [])
  let limitPrice ← price terms.limitPrice market.pcLotSize market.coinLotSize
  let transferred ← amountOf decimals mint p.order.transferred
  return {
    signature := p.order.signature
    slot := p.order.slot
    market := p.order.market
    openOrders := p.order.openOrders
    side := terms.side
    orderType := terms.orderType
    clientId := terms.clientId
    assetRatio := terms.assetRatio
    limitPrice
    transferredMint := mint
    transferred
    settleSignature := p.settle.map SettleEvent.signature
    settled }

end Order

end SignalPool
