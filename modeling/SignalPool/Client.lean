import SignalPool.Address
import SignalPool.Balance
import SignalPool.Config
import SignalPool.Extraction
import SignalPool.Instruction.Call
import SignalPool.Market
import SignalPool.Node
import SignalPool.Pool.State
import SignalPool.Trace

namespace SignalPool

inductive PoolGap where
  | notFound
  | tooShort (got : Nat)
  | undecodable (f : FormatFault)
  deriving DecidableEq

namespace PoolGap

def reason : PoolGap → String
  | notFound => "Pool account not found"
  | tooShort got => s!"Pool account too short ({got} bytes)"
  | undecodable f => "Pool account does not decode (" ++ f.message ++ ")"

end PoolGap

structure PoolInfo where
  address : Key
  mint : Key
  header : Pool.Header
  markets : List Key
  assetMints : List Key
  assetAccounts : Table Key Key
  deriving DecidableEq

namespace PoolInfo

def tracked (p : PoolInfo) : TrackedPool := ⟨p.header.seed, p.markets, p.assetAccounts⟩

end PoolInfo

structure Client where
  node : Node
  config : Config

namespace Client

inductive Fault where
  | address (f : Address.Fault)
  | pool (address : Key) (gap : PoolGap)
  | read (f : ReadFault)
  | encoding (f : EncodeFault)
  | foreignMint (pool mint : Key)
  | number (f : Text.Numeral.Fault)

namespace Fault

def message : Fault → String
  | address f => f.message
  | pool holder gap => gap.reason ++ ": " ++ holder.text
  | read f => f.message
  | encoding f => f.message
  | foreignMint holder mint =>
    "Pool " ++ holder.text ++ " holds no asset for mint " ++ mint.text
  | number f => f.message

end Fault

abbrev Run (α : Type) := ExceptT Fault Trace α

variable (c : Client)

def account (address : Key) : Trace (Option Bytes) :=
  Trace.ask (.account address) (c.node.account address)

def lift {ε α : Type} (cause : ε → Fault) (x : Except ε α) : Run α :=
  ExceptT.mk (pure (x.mapError cause))

def poolStateOf (address : Key) : Option Bytes → Except Fault Pool.State
  | none => .error (.pool address .notFound)
  | some data =>
    if data.length < Pool.Header.size then .error (.pool address (.tooShort data.length))
    else (Pool.State.decode data).mapError (fun f => .pool address (.undecodable f))

def poolState (seed : Bytes) : Run Pool.State := do
  let address ← lift .address (Address.pool seed c.config.poolProgram)
  let data ← ExceptT.lift (c.account address)
  lift id (poolStateOf address data)

def tokenAccount (owner mint : Key) : Except Address.Fault Key :=
  Address.associated owner mint c.config.tokenProgram c.config.associatedTokenProgram

def assetAccounts (pool : Key) : List Key → Except Address.Fault (List (Key × Key))
  | [] => .ok []
  | mint :: mints => do
    let account ← c.tokenAccount pool mint
    let rest ← assetAccounts pool mints
    return (account, mint) :: rest

def poolInfo (seed : Bytes) : Run PoolInfo := do
  let state ← c.poolState seed
  let address ← lift .address (Address.pool seed c.config.poolProgram)
  let accounts ← lift .address (c.assetAccounts address state.assets)
  let mint ← lift .address (Address.poolMint seed c.config.poolProgram)
  return { address, mint, header := state.header, markets := state.markets,
           assetMints := state.assets, assetAccounts := Table.ofList accounts }

def read {α : Type} (decode : Bytes → Except FormatFault α) (key : Key) :
    Trace (Except ReadFault α) := do
  match ← c.account key with
  | none => return .error (.absent key)
  | some data => return (decode data).mapError .format

def readMarket (market : Key) : Trace (Except ReadFault Market) :=
  c.read (Market.decode · market) market

def readDecimals (mint : Key) : Trace (Except ReadFault Int) := c.read Mint.decodeDecimals mint

def market (address : Key) : Run Market := do
  let found ← ExceptT.lift (c.readMarket address)
  lift .read found

def mintDecimals (mint : Key) : Run Int := do
  let found ← ExceptT.lift (c.readDecimals mint)
  lift .read found

def balanceOf (mint : Key) (raw : RawAmount) : Run TokenBalance := do
  let amount ← lift .number (Text.Numeral.parse raw.amount)
  return { mint, amount, decimals := raw.decimals }

def assetBalances : List (Key × Key) → Run (List TokenBalance)
  | [] => pure []
  | (holder, mint) :: rest => do
    let raw ← ExceptT.lift (Trace.ask (.balance holder) (c.node.balance holder))
    let b ← balanceOf mint raw
    let bs ← assetBalances rest
    return b :: bs

def poolBalances (seed : Bytes) : Run PoolBalances := do
  let info ← c.poolInfo seed
  let raw ← ExceptT.lift (Trace.ask (.supply info.mint) (c.node.supply info.mint))
  let supply ← balanceOf info.mint raw
  let assets ← c.assetBalances info.assetAccounts
  return { supply, assets }

/-- What an account of the pool program contributes to a scan: its seed, if it holds a pool of the
wanted provider, and a report if it should hold one but does not decode. -/
def scanned (provider : Option Key) (address : Key) (data : Bytes) :
    Option Bytes × List Warning :=
  if data.length < Pool.Header.size then (none, [])
  else
    match Pool.Header.decode data with
    | .error f => (none, [.accountSkipped address f])
    | .ok header =>
      if provider.all (· = header.signalProvider) then (some header.seed, []) else (none, [])

def poolSeeds (provider : Option Key) : Trace (List Bytes) := do
  let program := c.config.poolProgram
  let accounts ← Trace.ask (.programAccounts program) (c.node.programAccounts program)
  let found := accounts.map fun e => scanned provider e.1 e.2
  Trace.warn (found.flatMap Prod.snd)
  return found.filterMap Prod.fst

/-- A deposit whose pool tokens and fees go to the associated accounts of their owners. -/
def deposit (seed : Bytes) (sourceOwner : Key) (sourceAssets : List Key) (poolTokens : Int) :
    Run Call := do
  let info ← c.poolInfo seed
  let targetPoolToken ← lift .address (c.tokenAccount sourceOwner info.mint)
  let providerFees ← lift .address (c.tokenAccount info.header.signalProvider info.mint)
  let feeReceiver ← lift .address (c.tokenAccount c.config.feeReceiver info.mint)
  let buyAndBurn ← lift .address (c.tokenAccount c.config.buyAndBurn info.mint)
  lift .encoding (Call.deposit c.config.poolProgram info.header.seed poolTokens
    { pool := info.address, poolMint := info.mint, poolAssets := info.assetAccounts.keys,
      targetPoolToken, providerFees, feeReceiver, buyAndBurn, sourceOwner, sourceAssets })

def collectFees (seed : Bytes) : Run Call := do
  let info ← c.poolInfo seed
  let providerPoolToken ← lift .address (c.tokenAccount info.header.signalProvider info.mint)
  let feePoolToken ← lift .address (c.tokenAccount c.config.feeReceiver info.mint)
  let buyAndBurnPoolToken ← lift .address (c.tokenAccount c.config.buyAndBurn info.mint)
  lift .encoding (Call.collectFees c.config.poolProgram info.header.seed
    { pool := info.address, poolMint := info.mint, providerPoolToken, feePoolToken,
      buyAndBurnPoolToken })

def assetIndex (info : PoolInfo) (mint : Key) : Except Fault Nat :=
  match info.assetMints.idxOf? mint with
  | some i => .ok i
  | none => .error (.foreignMint info.address mint)

/-- Moves the proceeds of an open orders account into the pool, which must hold both tokens of the
market. -/
def settleFunds (seed : Bytes) (market openOrders : Key) (referrer : Option Key) : Run Call := do
  let info ← c.poolInfo seed
  let data ← c.market market
  let coinIndex ← lift id (assetIndex info data.coinMint)
  let pcIndex ← lift id (assetIndex info data.pcMint)
  let coinAsset ← lift .address (c.tokenAccount info.address data.coinMint)
  let pcAsset ← lift .address (c.tokenAccount info.address data.pcMint)
  let vaultSigner ← lift .address
    (Address.vaultSigner market data.vaultSignerNonce c.config.venueProgram)
  lift .encoding (Call.settleFunds c.config.poolProgram info.header.seed
    { pcIndex := pcIndex, coinIndex := coinIndex }
    { market, openOrders, pool := info.address, poolMint := info.mint,
      coinVault := data.coinVault, pcVault := data.pcVault, coinAsset, pcAsset, vaultSigner,
      venueProgram := c.config.venueProgram, referrer })

end Client

end SignalPool
