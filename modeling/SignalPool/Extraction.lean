import SignalPool.Event
import SignalPool.Instruction.Wire
import SignalPool.Warning

namespace SignalPool

/-- What tells a pool's activity from that of others: its seed, the markets it may trade on, and
the mints of its token accounts. -/
structure TrackedPool where
  seed : Bytes
  markets : List Key
  assetAccounts : Table Key Key

namespace OrderEvent

def marketPosition : Nat := 1

def openOrdersPosition : Nat := 3

/-- The market of an order: the pool's market with the index that the order states, or the
instruction's own account where the pool has none. -/
def marketOf (pool : TrackedPool) (keys : List Key) (c : Compiled) (index : Int) :
    Except FormatFault Key :=
  match pool.markets[index.toNat]? with
  | some market => .ok market
  | none => c.account keys marketPosition

/-- The order that an instruction places. Its first token transfer carries the amount paid; without
one there is no event. -/
def ofInstruction (tx : Transaction) (c : Compiled) (inner : List Compiled) (pool : TrackedPool)
    (tokenProgram : Key) : Except FormatFault (Option OrderEvent) := do
  let terms ← OrderTerms.decode c.data
  let openOrders ← c.account tx.keys openOrdersPosition
  let market ← marketOf pool tx.keys c terms.marketIndex
  return (inner.findSome? (·.transfer? tx.keys tokenProgram)).map fun t =>
    { signature := tx.signature, slot := tx.slot, openOrders, market,
      seed := Instruction.seedOf c.data, terms, transferred := t.amount }

end OrderEvent

namespace SettleEvent

def marketPosition : Nat := 0

def openOrdersPosition : Nat := 1

def proceeds? (pool : TrackedPool) (keys : List Key) (tokenProgram : Key) (c : Compiled) :
    Option (MintAmount Int) := do
  let t ← c.transfer? keys tokenProgram
  let mint ← pool.assetAccounts.get? t.destination
  return { mint, amount := t.amount }

def add (totals : Table Key Int) (a : MintAmount Int) : Table Key Int :=
  totals.insert a.mint ((totals.get? a.mint).getD 0 + a.amount)

def totals (amounts : List (MintAmount Int)) : Table Key Int := amounts.foldl add []

/-- The proceeds that an instruction settles, added up by mint. Transfers to accounts of others do
not count; without proceeds there is no event. -/
def ofInstruction (tx : Transaction) (c : Compiled) (inner : List Compiled) (pool : TrackedPool)
    (tokenProgram : Key) : Except FormatFault (Option SettleEvent) := do
  let market ← c.account tx.keys marketPosition
  let openOrders ← c.account tx.keys openOrdersPosition
  match totals (inner.filterMap (proceeds? pool tx.keys tokenProgram)) with
  | [] => return none
  | found =>
    return some { signature := tx.signature, slot := tx.slot, openOrders, market,
                  amounts := found.map fun e => ⟨e.1, e.2⟩ }

end SettleEvent

namespace Effect

def tag : Effect → Tag
  | order => .createOrder
  | settle => .settleFunds

def openOrdersPosition : Effect → Nat
  | order => OrderEvent.openOrdersPosition
  | settle => SettleEvent.openOrdersPosition

def ofData? (data : Bytes) : Option Effect :=
  match data.head? with
  | some b =>
    if b = Tag.createOrder.code then some .order
    else if b = Tag.settleFunds.code then some .settle
    else none
  | none => none

end Effect

namespace PoolEvent

def ofInstruction (effect : Effect) (tx : Transaction) (c : Compiled) (inner : List Compiled)
    (pool : TrackedPool) (tokenProgram : Key) : Except FormatFault (Option PoolEvent) :=
  match effect with
  | .order =>
    (OrderEvent.ofInstruction tx c inner pool tokenProgram).map (Option.map PoolEvent.order)
  | .settle =>
    (SettleEvent.ofInstruction tx c inner pool tokenProgram).map (Option.map PoolEvent.settle)

def warningsOf (effect : Effect) (tx : Transaction) (c : Compiled) :
    Except FormatFault (Option PoolEvent) → List Warning
  | .ok none =>
    [.noEffect effect (c.account? tx.keys effect.openOrdersPosition) tx.signature]
  | _ => []

end PoolEvent

namespace Transaction

/-- The effect that an instruction should have on a pool, if it is one of the pool program and
carries the pool's seed. -/
def effectOn? (tx : Transaction) (pool : TrackedPool) (program : Key) (c : Compiled) :
    Option Effect :=
  if c.programKey? tx.keys ≠ some program then none
  else if Instruction.seedOf c.data ≠ pool.seed then none
  else Effect.ofData? c.data

def innerOf (tx : Transaction) (place : Int) : List Compiled :=
  ((tx.inner.get? place).map Invoked.toList).getD []

def eventAt (tx : Transaction) (pool : TrackedPool) (program tokenProgram : Key) (place : Nat)
    (c : Compiled) : Option PoolEvent × List Warning :=
  match tx.effectOn? pool program c with
  | none => (none, [])
  | some effect =>
    match tx.innerOf place with
    | [] => (none, [.noEffect effect none tx.signature])
    | inner =>
      let found := PoolEvent.ofInstruction effect tx c inner pool tokenProgram
      match found with
      | .error f => (none, [.instructionSkipped place tx.signature f])
      | .ok event => (event, PoolEvent.warningsOf effect tx c found)

def outcomes (tx : Transaction) (pool : TrackedPool) (program tokenProgram : Key) :
    List (Option PoolEvent × List Warning) :=
  tx.instructions.zipIdx.map fun e => tx.eventAt pool program tokenProgram e.2 e.1

/-- The events of a pool in a transaction, the last instruction's first. -/
def events (tx : Transaction) (pool : TrackedPool) (program tokenProgram : Key) :
    List PoolEvent :=
  ((tx.outcomes pool program tokenProgram).filterMap Prod.fst).reverse

def warnings (tx : Transaction) (pool : TrackedPool) (program tokenProgram : Key) :
    List Warning :=
  (tx.outcomes pool program tokenProgram).flatMap Prod.snd

end Transaction

end SignalPool
