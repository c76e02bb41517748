import SignalPool.Instruction.Call

namespace SignalPool

inductive Argument where
  | one (key : Key)
  | many (keys : List Key)
  deriving DecidableEq

abbrev Named := List (Text × Argument)

namespace Named

def needed : Tag → List Text
  | .init => ["pool", "pool_mint", "payer"]
  | .create =>
    ["pool", "pool_mint", "pool_asset_accounts", "target_pool_token", "source_owner",
      "source_asset_accounts", "signal_provider"]
  | .deposit =>
    ["pool", "pool_mint", "pool_asset_accounts", "target_pool_token",
      "signal_provider_fee_receiver", "fee_receiver", "buy_and_burn", "source_owner",
      "source_asset_accounts"]
  | .createOrder =>
    ["signal_provider", "market", "payer_pool_asset", "open_orders", "request_queue",
      "event_queue", "bids", "asks", "pool", "coin_vault", "pc_vault"]
  | .cancelOrder =>
    ["signal_provider", "market", "open_orders", "event_queue", "bids", "asks", "pool"]
  | .settleFunds =>
    ["market", "open_orders", "pool", "pool_mint", "coin_vault", "pc_vault", "coin_pool_asset",
      "pc_pool_asset", "vault_signer"]
  | .redeem =>
    ["pool", "pool_mint", "pool_asset_accounts", "source_pool_token_owner", "source_pool_token",
      "target_asset_accounts"]
  | .collectFees =>
    ["pool", "pool_mint", "signal_provider_pool_token", "fee_pool_token",
      "buy_and_burn_pool_token"]

def optional : Tag → List Text
  | .create => ["serum_program_id", "program_id", "market_registry"]
  | .createOrder | .settleFunds => ["serum_program_id", "referrer", "program_id"]
  | .cancelOrder => ["serum_program_id", "program_id"]
  | .init | .deposit | .redeem | .collectFees => ["program_id"]

/-- Why named accounts make no call: names or shapes are not the ones of the instruction, an account
stands where a registry should, or what they name is refused. -/
inductive Fault where
  | mismatch
  | notARegistry
  | create (f : Call.CreateFault)
  | encoding (f : EncodeFault)

variable (n : Named)

def has (name : Text) : Bool := n.any fun a => a.1 = name

/-- Every needed name must be given, and no name that is neither needed nor optional. -/
def fits (t : Tag) : Bool :=
  (needed t).all n.has && n.all fun a => (needed t ++ optional t).contains a.1

def key (name : Text) : Except Fault Key :=
  match n.lookup name with
  | some (.one k) => .ok k
  | _ => .error .mismatch

def keys (name : Text) : Except Fault (List Key) :=
  match n.lookup name with
  | some (.many ks) => .ok ks
  | _ => .error .mismatch

def keyOr (name : Text) (standard : Key) : Except Fault Key :=
  if n.has name then n.key name else .ok standard

def key? (name : Text) : Except Fault (Option Key) :=
  if n.has name then (n.key name).map some else .ok none

def program : Except Fault Key := n.keyOr "program_id" Identity.poolProgram

def venueProgram : Except Fault Key := n.keyOr "serum_program_id" Identity.venueProgram

def initAccounts : Except Fault InitAccounts := do
  return { pool := ← n.key "pool", poolMint := ← n.key "pool_mint", payer := ← n.key "payer" }

def createAccounts : Except Fault CreateAccounts := do
  return {
    pool := ← n.key "pool"
    poolMint := ← n.key "pool_mint"
    poolAssets := ← n.keys "pool_asset_accounts"
    targetPoolToken := ← n.key "target_pool_token"
    sourceOwner := ← n.key "source_owner"
    sourceAssets := ← n.keys "source_asset_accounts"
    signalProvider := ← n.key "signal_provider"
    venueProgram := ← n.venueProgram }

def depositAccounts : Except Fault DepositAccounts := do
  return {
    pool := ← n.key "pool"
    poolMint := ← n.key "pool_mint"
    poolAssets := ← n.keys "pool_asset_accounts"
    targetPoolToken := ← n.key "target_pool_token"
    providerFees := ← n.key "signal_provider_fee_receiver"
    feeReceiver := ← n.key "fee_receiver"
    buyAndBurn := ← n.key "buy_and_burn"
    sourceOwner := ← n.key "source_owner"
    sourceAssets := ← n.keys "source_asset_accounts" }

def orderAccounts : Except Fault OrderAccounts := do
  return {
    signalProvider := ← n.key "signal_provider"
    market := ← n.key "market"
    payerAsset := ← n.key "payer_pool_asset"
    openOrders := ← n.key "open_orders"
    requestQueue := ← n.key "request_queue"
    eventQueue := ← n.key "event_queue"
    bids := ← n.key "bids"
    asks := ← n.key "asks"
    pool := ← n.key "pool"
    coinVault := ← n.key "coin_vault"
    pcVault := ← n.key "pc_vault"
    venueProgram := ← n.venueProgram
    referrer := ← n.key? "referrer" }

def cancelAccounts : Except Fault CancelAccounts := do
  return {
    signalProvider := ← n.key "signal_provider"
    market := ← n.key "market"
    openOrders := ← n.key "open_orders"
    eventQueue := ← n.key "event_queue"
    bids := ← n.key "bids"
    asks := ← n.key "asks"
    pool := ← n.key "pool"
    venueProgram := ← n.venueProgram }

def settleAccounts : Except Fault SettleAccounts := do
  return {
    market := ← n.key "market"
    openOrders := ← n.key "open_orders"
    pool := ← n.key "pool"
    poolMint := ← n.key "pool_mint"
    coinVault := ← n.key "coin_vault"
    pcVault := ← n.key "pc_vault"
    coinAsset := ← n.key "coin_pool_asset"
    pcAsset := ← n.key "pc_pool_asset"
    vaultSigner := ← n.key "vault_signer"
    venueProgram := ← n.venueProgram
    referrer := ← n.key? "referrer" }

def redeemAccounts : Except Fault RedeemAccounts := do
  return {
    pool := ← n.key "pool"
    poolMint := ← n.key "pool_mint"
    poolAssets := ← n.keys "pool_asset_accounts"
    sourceOwner := ← n.key "source_pool_token_owner"
    sourcePoolToken := ← n.key "source_pool_token"
    targetAssets := ← n.keys "target_asset_accounts" }

def feeAccounts : Except Fault FeeAccounts := do
  return {
    pool := ← n.key "pool"
    poolMint := ← n.key "pool_mint"
    providerPoolToken := ← n.key "signal_provider_pool_token"
    feePoolToken := ← n.key "fee_pool_token"
    buyAndBurnPoolToken := ← n.key "buy_and_burn_pool_token" }

def checkRegistry (markets : List Key) (registry : Option Registry) : Except Fault Unit :=
  match registry with
  | some _ => (Call.checkMarkets registry markets).mapError fun r => .create (.market r)
  | none => if n.has "market_registry" then .error .notARegistry else .ok ()

def standardCall (i : Instruction) (registry : Option Registry) : Except Fault Call :=
  let program := Identity.poolProgram
  match i.action with
  | .init terms => do
    (Call.init program i.seed terms (← n.initAccounts)).mapError .encoding
  | .create terms => do
    n.checkRegistry terms.markets registry
    (Call.create program i.seed terms (← n.createAccounts) registry).mapError .create
  | .deposit poolTokens => do
    (Call.deposit program i.seed poolTokens (← n.depositAccounts)).mapError .encoding
  | .createOrder terms => do
    (Call.createOrder program i.seed terms (← n.orderAccounts)).mapError .encoding
  | .cancelOrder terms => do
    (Call.cancelOrder program i.seed terms (← n.cancelAccounts)).mapError .encoding
  | .settleFunds terms => do
    (Call.settleFunds program i.seed terms (← n.settleAccounts)).mapError .encoding
  | .redeem poolTokens => do
    (Call.redeem program i.seed poolTokens (← n.redeemAccounts)).mapError .encoding
  | .collectFees => do
    (Call.collectFees program i.seed (← n.feeAccounts)).mapError .encoding

/-- The call of an instruction with named accounts. The names are looked at first, then the
registry, the accounts, the instruction, and the program last. -/
def call (i : Instruction) (registry : Option Registry) : Except Fault Call := do
  if n.fits i.tag && (registry.isNone || i.tag = .create) then
    let c ← n.standardCall i registry
    return { c with program := ← n.program }
  else .error .mismatch

end Named

end SignalPool
