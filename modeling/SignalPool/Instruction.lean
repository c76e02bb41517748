import SignalPool.Choice
import SignalPool.Key
import SignalPool.Tag

namespace SignalPool

structure Allocation where
  maxAssets : Int
  markets : Int
  deriving DecidableEq

/-- The first deposit into a pool, which also fixes its fees and its markets. -/
structure FirstDeposit where
  feePeriod : Int
  feeRatio : Int
  markets : List Key
  amounts : List Int
  deriving DecidableEq

structure OrderTerms where
  side : Choice Side
  limitPrice : Int
  assetRatio : Int
  orderType : Choice OrderType
  clientId : Int
  selfTrade : Choice SelfTrade
  sourceIndex : Int
  targetIndex : Int
  marketIndex : Int
  coinLotSize : Int
  pcLotSize : Int
  targetMint : Key
  matchLimit : Int
  deriving DecidableEq

structure Cancellation where
  side : Choice Side
  orderId : Int
  deriving DecidableEq

/-- Positions of the quote and base assets that receive matched proceeds. -/
structure Settlement where
  pcIndex : Int
  coinIndex : Int
  deriving DecidableEq

inductive Action where
  | init (a : Allocation)
  | create (d : FirstDeposit)
  | deposit (poolTokens : Int)
  | createOrder (o : OrderTerms)
  | cancelOrder (c : Cancellation)
  | settleFunds (s : Settlement)
  | redeem (poolTokens : Int)
  | collectFees
  deriving DecidableEq

structure Instruction where
  seed : Bytes
  action : Action
  deriving DecidableEq

namespace Action

def tag : Action → Tag
  | init _ => .init
  | create _ => .create
  | deposit _ => .deposit
  | createOrder _ => .createOrder
  | cancelOrder _ => .cancelOrder
  | settleFunds _ => .settleFunds
  | redeem _ => .redeem
  | collectFees => .collectFees

end Action

namespace Instruction

def tag (i : Instruction) : Tag := i.action.tag

end Instruction

end SignalPool
