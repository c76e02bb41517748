import SignalPool.Proofs.Recognition
import SignalPool.Proofs.Restatement

namespace SignalPool

namespace Pairing

/-- The orders that a larger limit selects beyond a smaller one. -/
def selectBetween (paired : List PairedOrder) (n m : Int) : List PairedOrder :=
  ((Ranking.newestFirst (·.order.slot) paired).drop n.toNat).take (m.toNat - n.toNat)

theorem selectRecent_eq_append (paired : List PairedOrder) {n m : Int} (h : n ≤ m) :
    selectRecent paired m = selectRecent paired n ++ selectBetween paired n m := by
  have hle : n.toNat ≤ m.toNat := Int.toNat_le_toNat h
  rw [selectRecent, selectRecent, selectBetween, ← List.take_add, Nat.add_sub_cancel' hle]

end Pairing

namespace Reconstructor

variable (r : Reconstructor) (pool : TrackedPool) (txs : List Transaction)

/-- The orders that a request for `m` of them has beyond a request for `n`. -/
def page (n m : Int) : List Order :=
  (Pairing.selectBetween (Pairing.pair (r.events pool txs)) n m).filterMap r.client.node.restate

theorem value_orders_append {n m : Int} (h : n ≤ m) :
    (r.orders pool txs m).value = (r.orders pool txs n).value ++ r.page pool txs n m := by
  -- The two runs read different markets and mints, but each order is restated by itself.
  rw [value_orders, value_orders, recent, recent, page, Pairing.selectRecent_eq_append _ h,
    List.filterMap_append]

/-- A smaller request gives the first orders of a larger one, as they stand there. What a larger
request has beyond them are the restated orders of the ranks beyond. -/
theorem orders_paged {n m : Int} (h : n ≤ m) :
    (r.orders pool txs n).value <+: (r.orders pool txs m).value ∧
      (r.orders pool txs m).value = (r.orders pool txs n).value ++ r.page pool txs n m := by
  have happend := r.value_orders_append pool txs h
  exact ⟨⟨r.page pool txs n m, happend.symm⟩, happend⟩

def bidOn (market : Key) (slot : Int) : Transaction where
  signature := "a"
  slot := slot
  keys := [.ofNat 19, .ofNat 15, .ofNat 20, market, .ofNat 4]
  instructions := [⟨2, [3, 3, 1, 4],
    (Instruction.encode ⟨Call.oneMarket.seed, .createOrder Call.bid⟩).toOption.getD []⟩]
  inner := [(0, .only Call.transfer513)]

def allBut (absent : Key) : Node where
  account k := if k = absent then none else some (List.replicate 365 1)
  supply _ := ⟨"0", 0⟩
  balance _ := ⟨"0", 0⟩
  programAccounts _ := []
  signatures _ _ := []
  transaction _ := .ok none

theorem orders_paged_gap :
    let config := { Config.standard with poolProgram := .ofNat 20, tokenProgram := .ofNat 19 }
    let r : Reconstructor := ⟨⟨allBut (.ofNat 7), config⟩, config⟩
    let txs := [bidOn (.ofNat 2) 9, bidOn (.ofNat 7) 8, bidOn (.ofNat 3) 7]
    (2 : Int) ≤ 3 ∧ (r.orders Call.oneMarket txs 2).value.length = 1 ∧
      (r.orders Call.oneMarket txs 3).value.length = 2 ∧
      (r.orders Call.oneMarket txs 2).value <+: (r.orders Call.oneMarket txs 3).value ∧
      (r.orders Call.oneMarket txs 3).value =
        (r.orders Call.oneMarket txs 2).value ++ r.page Call.oneMarket txs 2 3 := by
  intro config r txs
  have hle : (2 : Int) ≤ 3 := by decide
  exact ⟨hle, by decide +kernel, by decide +kernel, r.orders_paged Call.oneMarket txs hle⟩

end Reconstructor

end SignalPool
