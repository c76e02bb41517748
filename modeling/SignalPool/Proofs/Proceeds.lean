import SignalPool.Proofs.Accumulation
import SignalPool.Proofs.Conservation

namespace SignalPool

namespace MintAmount

variable {m : Key}

theorem total_concat (as : List (MintAmount Int)) (a : MintAmount Int) :
    total m (as ++ [a]) = total m as + if a.mint = m then a.amount else 0 := by
  by_cases h : a.mint = m <;> simp [total, h]

theorem total_eq_zero {as : List (MintAmount Int)} (h : m ∉ as.map mint) : total m as = 0 := by
  have hnone : as.filter (·.mint = m) = [] := by
    apply List.filter_eq_nil_iff.mpr
    intro a ha hm
    exact h (List.mem_map.mpr ⟨a, ha, of_decide_eq_true hm⟩)
  rw [total, hnone]
  rfl

theorem total_perm {as bs : List (MintAmount Int)} (h : as.Perm bs) : total m as = total m bs :=
  ((h.filter _).map _).sum_eq

/-- One amount for each mint, in the order in which the mints first come. -/
def summed (as : List (MintAmount Int)) : List (MintAmount Int) :=
  (as.map mint).eraseDups.map fun m => ⟨m, total m as⟩

theorem summed_perm {as bs : List (MintAmount Int)} (h : as.Perm bs) :
    (summed as).Perm (summed bs) := by
  have hmints : (as.map mint).eraseDups.Perm (bs.map mint).eraseDups := by
    apply (List.perm_ext_iff_of_nodup (Grouping.nodup_eraseDups _)
      (Grouping.nodup_eraseDups _)).mpr
    intro m
    rw [List.mem_eraseDups, List.mem_eraseDups]
    exact (h.map mint).mem_iff
  have htotals : summed bs = (bs.map mint).eraseDups.map fun m => ⟨m, total m as⟩ := by
    apply List.map_congr_left
    intro m _
    rw [total_perm h]
  rw [htotals]
  exact hmints.map _

end MintAmount

namespace SettleEvent

open MintAmount

theorem totals_eq (as : List (MintAmount Int)) :
    totals as = (as.map mint).eraseDups.map fun m => (m, total m as) := by
  refine Table.foldl_insert_eq mint (fun held a => held.getD 0 + a.amount) (fun as m => total m as)
    ?_ ?_ ?_ as
  · intro as a m hm
    rw [total_concat, if_neg hm, Int.add_zero]
  · intro as a ha
    rw [total_concat, if_pos rfl, total_eq_zero ha]
    rfl
  · intro as a _
    rw [total_concat, if_pos rfl]
    rfl

/-- An inner instruction brings the pool an amount of a mint: it moves the amount to the account
that the pool has for the mint. -/
def Brings (pool : TrackedPool) (keys : List Key) (tokenProgram : Key) (c : Compiled)
    (a : MintAmount Int) : Prop :=
  ∃ t, c.Transfers keys tokenProgram t ∧ pool.assetAccounts.get? t.destination = some a.mint ∧
    a.amount = t.amount

variable {tx : Transaction} {c : Compiled} {inner : List Compiled} {pool : TrackedPool}
  {tokenProgram market openOrders : Key}

theorem proceeds?_eq_some_iff {keys : List Key} {a : MintAmount Int} :
    proceeds? pool keys tokenProgram c = some a ↔ Brings pool keys tokenProgram c a := by
  simp only [proceeds?, Option.bind_eq_bind, Option.bind_eq_some_iff, pure,
    Compiled.transfer?_eq_some_iff, Option.some.injEq]
  constructor
  · rintro ⟨t, ht, m, hm, rfl⟩
    exact ⟨t, ht, hm, rfl⟩
  · rintro ⟨t, ht, hm, hamount⟩
    exact ⟨t, ht, a.mint, hm, by rw [← hamount]⟩

theorem proceeds?_eq_none_iff {keys : List Key} :
    proceeds? pool keys tokenProgram c = none ↔ ∀ a, ¬Brings pool keys tokenProgram c a := by
  rw [Option.eq_none_iff_forall_ne_some]
  exact forall_congr' fun a => not_congr proceeds?_eq_some_iff

theorem shown_eq (tx : Transaction) (inner : List Compiled) (pool : TrackedPool)
    (tokenProgram market openOrders : Key) :
    shown tx inner pool tokenProgram market openOrders =
      { signature := tx.signature, slot := tx.slot, openOrders, market,
        amounts := summed (inner.filterMap (proceeds? pool tx.keys tokenProgram)) } := by
  rw [shown, totals_eq, List.map_map]
  rfl

theorem ofInstruction_of_named (hmarket : c.account? tx.keys marketPosition = some market)
    (hopenOrders : c.account? tx.keys openOrdersPosition = some openOrders) :
    ofInstruction tx c inner pool tokenProgram = .ok
      (if inner.filterMap (proceeds? pool tx.keys tokenProgram) = [] then none
        else some (shown tx inner pool tokenProgram market openOrders)) := by
  by_cases hnone : inner.filterMap (proceeds? pool tx.keys tokenProgram) = []
  · have hmarket' := Compiled.account_eq_ok_iff.mpr hmarket
    have hopenOrders' := Compiled.account_eq_ok_iff.mpr hopenOrders
    rw [if_pos hnone, ofInstruction, hmarket', hopenOrders', hnone]
    rfl
  · rw [if_neg hnone]
    exact ofInstruction_eq_some_iff.mpr ⟨market, openOrders, hmarket, hopenOrders, hnone, rfl⟩

theorem ofInstruction_eq_none_iff (hmarket : c.account? tx.keys marketPosition = some market)
    (hopenOrders : c.account? tx.keys openOrdersPosition = some openOrders) :
    ofInstruction tx c inner pool tokenProgram = .ok none ↔
      inner.filterMap (proceeds? pool tx.keys tokenProgram) = [] := by
  rw [ofInstruction_of_named hmarket hopenOrders, Except.ok.injEq, ite_eq_left_iff]
  simp

theorem ofInstruction_perm {inner' : List Compiled} {e : SettleEvent} (h : inner.Perm inner')
    (he : ofInstruction tx c inner pool tokenProgram = .ok (some e)) :
    ∃ amounts, ofInstruction tx c inner' pool tokenProgram = .ok (some { e with amounts }) ∧
      e.amounts.Perm amounts := by
  obtain ⟨market, openOrders, hmarket, hopenOrders, hne, rfl⟩ := ofInstruction_eq_some_iff.mp he
  have hbrought := h.filterMap (proceeds? pool tx.keys tokenProgram)
  have hne' : inner'.filterMap (proceeds? pool tx.keys tokenProgram) ≠ [] := fun hnil =>
    hne (hnil ▸ hbrought).eq_nil
  have he' := ofInstruction_eq_some_iff.mpr ⟨market, openOrders, hmarket, hopenOrders, hne', rfl⟩
  rw [shown_eq] at he' ⊢
  exact ⟨_, he', summed_perm hbrought⟩

variable (inner pool tokenProgram) in
/-- A settlement that names its accounts adds up what the inner instructions bring the pool. It is
one event exactly if they bring something, with one amount for each mint: the sum of all that they
bring in the mint, however large, the mints in the order in which they first come. What they move
elsewhere plays no part, and in another order they change at most the order of the amounts. -/
theorem settlement_adds_up (hmarket : c.account? tx.keys marketPosition = some market)
    (hopenOrders : c.account? tx.keys openOrdersPosition = some openOrders) :
    let brought := inner.filterMap (proceeds? pool tx.keys tokenProgram)
    (∀ x a, proceeds? pool tx.keys tokenProgram x = some a ↔
        Brings pool tx.keys tokenProgram x a) ∧
      (ofInstruction tx c inner pool tokenProgram = .ok none ↔ brought = []) ∧
      (brought ≠ [] → ofInstruction tx c inner pool tokenProgram = .ok (some
        { signature := tx.signature, slot := tx.slot, openOrders, market,
          amounts := summed brought })) ∧
      (∀ before x after, inner = before ++ x :: after →
        (∀ a, ¬Brings pool tx.keys tokenProgram x a) →
        ofInstruction tx c inner pool tokenProgram =
          ofInstruction tx c (before ++ after) pool tokenProgram) ∧
      ∀ inner', inner.Perm inner' →
        (ofInstruction tx c inner' pool tokenProgram = .ok none ↔ brought = []) ∧
          ∀ e, ofInstruction tx c inner pool tokenProgram = .ok (some e) →
            ∃ amounts, ofInstruction tx c inner' pool tokenProgram = .ok (some { e with amounts }) ∧
              e.amounts.Perm amounts := by
  intro brought
  refine ⟨fun x a => proceeds?_eq_some_iff, ofInstruction_eq_none_iff hmarket hopenOrders,
    fun hne => ?_, ?_, fun inner' hperm => ⟨?_, fun e he => ofInstruction_perm hperm he⟩⟩
  · rw [ofInstruction_of_named hmarket hopenOrders, if_neg hne, shown_eq]
  · rintro before x after rfl helsewhere
    have hx := proceeds?_eq_none_iff.mpr helsewhere
    have hsame : (before ++ x :: after).filterMap (proceeds? pool tx.keys tokenProgram) =
        (before ++ after).filterMap (proceeds? pool tx.keys tokenProgram) := by
      rw [List.filterMap_append, List.filterMap_cons_none hx, List.filterMap_append]
    rw [ofInstruction_of_named hmarket hopenOrders, ofInstruction_of_named hmarket hopenOrders,
      shown_eq, shown_eq, hsame]
  · rw [ofInstruction_eq_none_iff hmarket hopenOrders, ← List.perm_nil, ← List.perm_nil]
    exact (hperm.symm.filterMap _).congr_left []

def threeAccounts : TrackedPool where
  seed := List.replicate 32 9
  markets := []
  assetAccounts := [(.ofNat 15, .ofNat 18), (.ofNat 16, .ofNat 21), (.ofNat 17, .ofNat 18)]

def paidOut : Transaction where
  signature := "a"
  slot := 5
  keys := [.ofNat 19, .ofNat 15, .ofNat 16, .ofNat 17, .ofNat 30, .ofNat 2, .ofNat 4]
  instructions := []
  inner := []

def moveMost (program account : Nat) : Compiled :=
  ⟨program, [0, account], Compiled.transferCode :: List.replicate 8 0xff⟩

def payments : List Compiled :=
  [moveMost 0 1, moveMost 0 4, moveMost 0 77, moveMost 1 2, ⟨0, [0, 2], [3, 1, 0, 0, 0, 0, 0, 0]⟩,
    moveMost 0 3, ⟨0, [0, 2], [3, 5, 0, 0, 0, 0, 0, 0, 0, 7]⟩]

theorem settlement_adds_up_payments :
    let settle : Compiled := ⟨0, [5, 6], []⟩
    settle.account? paidOut.keys marketPosition = some (.ofNat 2) ∧
      settle.account? paidOut.keys openOrdersPosition = some (.ofNat 4) ∧
      ofInstruction paidOut settle payments threeAccounts (.ofNat 19) =
        .ok (some ⟨"a", 5, .ofNat 4, .ofNat 2,
          [⟨.ofNat 18, 36893488147419103230⟩, ⟨.ofNat 21, 5⟩]⟩) ∧
      ∃ amounts, ofInstruction paidOut settle payments.reverse threeAccounts (.ofNat 19) =
          .ok (some ⟨"a", 5, .ofNat 4, .ofNat 2, amounts⟩) ∧
        [⟨.ofNat 18, 36893488147419103230⟩, ⟨.ofNat 21, 5⟩].Perm amounts := by
  intro settle
  have hmarket : settle.account? paidOut.keys marketPosition = some (.ofNat 2) := rfl
  have hopenOrders : settle.account? paidOut.keys openOrdersPosition = some (.ofNat 4) := rfl
  obtain ⟨_, _, hevent, _, hreordered⟩ :=
    settlement_adds_up payments threeAccounts (.ofNat 19) hmarket hopenOrders
  have hsums : summed (payments.filterMap (proceeds? threeAccounts paidOut.keys (.ofNat 19))) =
      [⟨.ofNat 18, 36893488147419103230⟩, ⟨.ofNat 21, 5⟩] := by decide +kernel
  rw [hsums] at hevent
  have hpaid := hevent (by decide +kernel)
  exact ⟨hmarket, hopenOrders, hpaid, (hreordered _ (List.reverse_perm payments).symm).2 _ hpaid⟩

end SettleEvent

end SignalPool
