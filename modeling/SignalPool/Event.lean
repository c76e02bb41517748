import SignalPool.Instruction
import SignalPool.Transaction

namespace SignalPool

structure MintAmount (α : Type) where
  mint : Key
  amount : α
  deriving DecidableEq

/-- An order that was placed, and what it moved into the venue. -/
structure OrderEvent where
  signature : Text
  slot : Int
  openOrders : Key
  market : Key
  seed : Bytes
  terms : OrderTerms
  transferred : Int
  deriving DecidableEq

structure SettleEvent where
  signature : Text
  slot : Int
  openOrders : Key
  market : Key
  amounts : List (MintAmount Int)
  deriving DecidableEq

inductive PoolEvent where
  | order (e : OrderEvent)
  | settle (e : SettleEvent)
  deriving DecidableEq

namespace PoolEvent

def signature : PoolEvent → Text
  | order e => e.signature
  | settle e => e.signature

def slot : PoolEvent → Int
  | order e => e.slot
  | settle e => e.slot

def openOrders : PoolEvent → Key
  | order e => e.openOrders
  | settle e => e.openOrders

def order? : PoolEvent → Option OrderEvent
  | order e => some e
  | settle _ => none

def settle? : PoolEvent → Option SettleEvent
  | order _ => none
  | settle e => some e

def isSettle (e : PoolEvent) : Bool := e.settle?.isSome

@[simp] theorem order?_order (e : OrderEvent) : (order e).order? = some e := rfl

@[simp] theorem order?_settle (e : SettleEvent) : (settle e).order? = none := rfl

@[simp] theorem settle?_order (e : OrderEvent) : (order e).settle? = none := rfl

@[simp] theorem settle?_settle (e : SettleEvent) : (settle e).settle? = some e := rfl

@[simp] theorem isSettle_order (e : OrderEvent) : (order e).isSettle = false := rfl

@[simp] theorem isSettle_settle (e : SettleEvent) : (settle e).isSettle = true := rfl

end PoolEvent

end SignalPool
