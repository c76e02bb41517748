import SignalPool.Identity
import SignalPool.Instruction.Wire
import SignalPool.Registry

namespace SignalPool

structure AccountUse where
  key : Key
  signer : Bool
  writable : Bool
  deriving DecidableEq

namespace AccountUse

def readOnly (key : Key) : AccountUse := ⟨key, false, false⟩

def writes (key : Key) : AccountUse := ⟨key, false, true⟩

def signs (key : Key) : AccountUse := ⟨key, true, false⟩

def signsAndWrites (key : Key) : AccountUse := ⟨key, true, true⟩

end AccountUse

structure Call where
  program : Key
  accounts : List AccountUse
  data : Bytes
  deriving DecidableEq

open AccountUse

structure InitAccounts where
  pool : Key
  poolMint : Key
  payer : Key

namespace InitAccounts

def uses (a : InitAccounts) : List AccountUse :=
  [readOnly Identity.systemProgram, readOnly Identity.rentSysvar, readOnly Identity.tokenProgram,
    writes a.pool, writes a.poolMint, signsAndWrites a.payer]

end InitAccounts

structure CreateAccounts where
  pool : Key
  poolMint : Key
  poolAssets : List Key
  targetPoolToken : Key
  sourceOwner : Key
  sourceAssets : List Key
  signalProvider : Key
  venueProgram : Key

namespace CreateAccounts

def uses (a : CreateAccounts) : List AccountUse :=
  [readOnly Identity.tokenProgram, readOnly Identity.clockSysvar, readOnly a.venueProgram,
    readOnly a.signalProvider, writes a.poolMint, writes a.targetPoolToken, writes a.pool] ++
    a.poolAssets.map writes ++ signs a.sourceOwner :: a.sourceAssets.map writes

end CreateAccounts

structure DepositAccounts where
  pool : Key
  poolMint : Key
  poolAssets : List Key
  targetPoolToken : Key
  providerFees : Key
  feeReceiver : Key
  buyAndBurn : Key
  sourceOwner : Key
  sourceAssets : List Key

namespace DepositAccounts

def uses (a : DepositAccounts) : List AccountUse :=
  [readOnly Identity.tokenProgram, writes a.poolMint, writes a.targetPoolToken,
    writes a.providerFees, writes a.feeReceiver, writes a.buyAndBurn, readOnly a.pool] ++
    a.poolAssets.map writes ++ signs a.sourceOwner :: a.sourceAssets.map writes

end DepositAccounts

structure OrderAccounts where
  signalProvider : Key
  market : Key
  payerAsset : Key
  openOrders : Key
  requestQueue : Key
  eventQueue : Key
  bids : Key
  asks : Key
  pool : Key
  coinVault : Key
  pcVault : Key
  venueProgram : Key
  referrer : Option Key

namespace OrderAccounts

def uses (a : OrderAccounts) : List AccountUse :=
  [signs a.signalProvider, writes a.market, writes a.payerAsset, writes a.openOrders,
    writes a.eventQueue, writes a.requestQueue, writes a.bids, writes a.asks, writes a.pool,
    writes a.coinVault, writes a.pcVault, readOnly Identity.tokenProgram,
    readOnly Identity.rentSysvar, readOnly a.venueProgram] ++ a.referrer.toList.map writes

end OrderAccounts

structure CancelAccounts where
  signalProvider : Key
  market : Key
  openOrders : Key
  eventQueue : Key
  bids : Key
  asks : Key
  pool : Key
  venueProgram : Key

namespace CancelAccounts

def uses (a : CancelAccounts) : List AccountUse :=
  [signs a.signalProvider, readOnly a.market, writes a.openOrders, writes a.eventQueue,
    writes a.bids, writes a.asks, readOnly a.pool, readOnly a.venueProgram]

end CancelAccounts

structure SettleAccounts where
  market : Key
  openOrders : Key
  pool : Key
  poolMint : Key
  coinVault : Key
  pcVault : Key
  coinAsset : Key
  pcAsset : Key
  vaultSigner : Key
  venueProgram : Key
  referrer : Option Key

namespace SettleAccounts

def uses (a : SettleAccounts) : List AccountUse :=
  [writes a.market, writes a.openOrders, writes a.pool, readOnly a.poolMint, writes a.coinVault,
    writes a.pcVault, writes a.coinAsset, writes a.pcAsset, readOnly a.vaultSigner,
    readOnly Identity.tokenProgram, readOnly a.venueProgram] ++ a.referrer.toList.map writes

end SettleAccounts

structure RedeemAccounts where
  pool : Key
  poolMint : Key
  poolAssets : List Key
  sourceOwner : Key
  sourcePoolToken : Key
  targetAssets : List Key

namespace RedeemAccounts

def uses (a : RedeemAccounts) : List AccountUse :=
  [readOnly Identity.tokenProgram, readOnly Identity.clockSysvar, writes a.poolMint,
    signs a.sourceOwner, writes a.sourcePoolToken, writes a.pool] ++
    a.poolAssets.map writes ++ a.targetAssets.map writes

end RedeemAccounts

structure FeeAccounts where
  pool : Key
  poolMint : Key
  providerPoolToken : Key
  feePoolToken : Key
  buyAndBurnPoolToken : Key

namespace FeeAccounts

def uses (a : FeeAccounts) : List AccountUse :=
  [readOnly Identity.tokenProgram, readOnly Identity.clockSysvar, writes a.pool,
    writes a.poolMint, writes a.providerPoolToken, writes a.feePoolToken,
    writes a.buyAndBurnPoolToken]

end FeeAccounts

namespace Call

def make (program : Key) (accounts : List AccountUse) (i : Instruction) :
    Except EncodeFault Call := do
  let data ← i.encode
  return { program, accounts, data }

variable (program : Key) (seed : Bytes)

def init (terms : Allocation) (a : InitAccounts) : Except EncodeFault Call :=
  make program a.uses ⟨seed, .init terms⟩

def deposit (poolTokens : Int) (a : DepositAccounts) : Except EncodeFault Call :=
  make program a.uses ⟨seed, .deposit poolTokens⟩

def createOrder (terms : OrderTerms) (a : OrderAccounts) : Except EncodeFault Call :=
  make program a.uses ⟨seed, .createOrder terms⟩

def cancelOrder (terms : Cancellation) (a : CancelAccounts) : Except EncodeFault Call :=
  make program a.uses ⟨seed, .cancelOrder terms⟩

def settleFunds (terms : Settlement) (a : SettleAccounts) : Except EncodeFault Call :=
  make program a.uses ⟨seed, .settleFunds terms⟩

def redeem (poolTokens : Int) (a : RedeemAccounts) : Except EncodeFault Call :=
  make program a.uses ⟨seed, .redeem poolTokens⟩

def collectFees (a : FeeAccounts) : Except EncodeFault Call :=
  make program a.uses ⟨seed, .collectFees⟩

inductive CreateFault where
  | market (r : Registry.Refusal)
  | encoding (f : EncodeFault)

namespace CreateFault

def message : CreateFault → String
  | market r => r.message
  | encoding f => f.message

end CreateFault

def checkMarkets (registry : Option Registry) (markets : List Key) :
    Except Registry.Refusal Unit :=
  match registry with
  | none => .ok ()
  | some r => r.validate markets

/-- Where a registry is given, the markets are checked before anything is encoded. -/
def create (terms : FirstDeposit) (a : CreateAccounts) (registry : Option Registry) :
    Except CreateFault Call := do
  (checkMarkets registry terms.markets).mapError .market
  (make program a.uses ⟨seed, .create terms⟩).mapError .encoding

end Call

end SignalPool
