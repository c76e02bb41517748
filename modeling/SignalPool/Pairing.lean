import SignalPool.Event
import SignalPool.Ranking

namespace SignalPool

/-- An order and the settlement attributed to it, if there is one. -/
structure PairedOrder where
  order : OrderEvent
  settle : Option SettleEvent
  deriving DecidableEq

namespace Pairing

/-- Gives the orders, oldest first, one settlement each as long as there are some. -/
def assign : List OrderEvent → List SettleEvent → List PairedOrder
  | [], _ => []
  | o :: os, [] => ⟨o, none⟩ :: assign os []
  | o :: os, s :: ss => ⟨o, some s⟩ :: assign os ss

/-- Pairs the events of one account, oldest first. Settlements before the first order belong to
orders that are not in the list. -/
def ofAccount (events : List PoolEvent) : List PairedOrder :=
  assign (events.filterMap PoolEvent.order?)
    ((events.dropWhile PoolEvent.isSettle).filterMap PoolEvent.settle?)

def accounts (events : List PoolEvent) : List Key := (events.map PoolEvent.openOrders).eraseDups

/-- Pairs the events of each account by themselves, newest first in and out. An account is taken
to have one order in flight at a time: each settlement goes to its oldest order without one. -/
def pair (events : List PoolEvent) : List PairedOrder :=
  (accounts events).flatMap fun account =>
    (ofAccount (events.filter (·.openOrders = account)).reverse).reverse

/-- The orders of the highest slots, at most `limit` of them; orders of one slot keep their
order. -/
def selectRecent (paired : List PairedOrder) (limit : Int) : List PairedOrder :=
  (Ranking.newestFirst (·.order.slot) paired).take limit.toNat

theorem selectRecent_of_nonpos (paired : List PairedOrder) {limit : Int} (h : limit ≤ 0) :
    selectRecent paired limit = [] := by
  rw [selectRecent, Int.toNat_of_nonpos h, List.take_zero]

theorem map_order_assign (os : List OrderEvent) (ss : List SettleEvent) :
    (assign os ss).map PairedOrder.order = os := by
  induction os generalizing ss with
  | nil => rfl
  | cons o os ih => cases ss <;> simp [assign, ih]

end Pairing

end SignalPool
