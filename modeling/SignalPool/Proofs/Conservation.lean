import Mathlib.Algebra.Order.BigOperators.Group.List
import Mathlib.Algebra.Ring.Int.Defs
import Mathlib.Data.List.Perm.Subperm
import SignalPool.Proofs.Attribution
import SignalPool.Proofs.Restatement
import SignalPool.Proofs.Recognition

namespace SignalPool

namespace MintAmount

variable {mint : Key}

def total (mint : Key) (as : List (MintAmount Int)) : Int :=
  ((as.filter (·.mint = mint)).map amount).sum

@[simp] theorem total_nil : total mint [] = 0 := rfl

theorem total_cons (a : MintAmount Int) (as : List (MintAmount Int)) :
    total mint (a :: as) = (if a.mint = mint then a.amount else 0) + total mint as := by
  by_cases h : a.mint = mint <;> simp [total, h]

end MintAmount

namespace SettleEvent

open MintAmount

variable {mint : Key}

def entries (t : Table Key Int) : List (MintAmount Int) := t.map fun e => ⟨e.1, e.2⟩

theorem total_entries_cons (e : Key × Int) (t : Table Key Int) :
    total mint (entries (e :: t)) =
      (if e.1 = mint then e.2 else 0) + total mint (entries t) := total_cons _ _

theorem total_add (t : Table Key Int) (a : MintAmount Int) :
    total mint (entries (add t a)) =
      total mint (entries t) + if a.mint = mint then a.amount else 0 := by
  induction t with
  | nil => simp [add, Table.insert, Table.get?, entries, total_cons]
  | cons e t ih =>
    rw [add, Table.insert, Table.get?]
    by_cases hk : e.1 = a.mint
    · rw [if_pos hk, if_pos hk, total_entries_cons, total_entries_cons]
      by_cases hm : e.1 = mint
      · have ha : a.mint = mint := hk ▸ hm
        simp only [hm, ha, if_true, Option.getD_some]
        omega
      · have ha : a.mint ≠ mint := hk ▸ hm
        simp only [hm, ha, if_false]
        omega
    · rw [if_neg hk, if_neg hk, total_entries_cons, total_entries_cons, Int.add_assoc, ← ih]
      rfl

/-- Adding up by mint loses nothing and adds nothing. -/
theorem total_totals (as : List (MintAmount Int)) :
    total mint (entries (totals as)) = total mint as := by
  have hfrom (t : Table Key Int) :
      total mint (entries (as.foldl add t)) = total mint (entries t) + total mint as := by
    induction as generalizing t with
    | nil => simp
    | cons a as ih => rw [List.foldl_cons, ih, total_add, total_cons, Int.add_assoc]
  rw [totals, hfrom]
  simp [entries]

end SettleEvent

namespace PoolEvent

def amounts : PoolEvent → List (MintAmount Int)
  | order _ => []
  | settle s => s.amounts

@[simp] theorem amounts_order (o : OrderEvent) : (order o).amounts = [] := rfl

@[simp] theorem amounts_settle (s : SettleEvent) : (settle s).amounts = s.amounts := rfl

end PoolEvent

namespace Transaction

variable (tx : Transaction) (pool : TrackedPool) (program tokenProgram mint : Key)

/-- The market and the open orders account of a settlement are among the accounts of the
instruction. -/
def NamesAccounts (c : Compiled) : Prop :=
  (c.account? tx.keys SettleEvent.marketPosition).isSome ∧
    (c.account? tx.keys SettleEvent.openOrdersPosition).isSome

instance (c : Compiled) : Decidable (tx.NamesAccounts c) := inferInstanceAs (Decidable (_ ∧ _))

/-- What the transfers that an instruction invoked brought to the accounts of the pool for a
mint. -/
def receivedAt (place : Nat) : Int :=
  ((((tx.innerOf place).filterMap (·.transfer? tx.keys tokenProgram)).filter fun t =>
    pool.assetAccounts.get? t.destination = some mint).map fun t => (t.amount : Int)).sum

def received : Int :=
  (tx.instructions.zipIdx.map fun e =>
    if tx.Settles pool program e.1 then tx.receivedAt pool tokenProgram mint e.2 else 0).sum

/-- What settlements that do not name their accounts brought. -/
def unnamed : Int :=
  (tx.instructions.zipIdx.map fun e =>
    if tx.Settles pool program e.1 ∧ ¬tx.NamesAccounts e.1 then
      tx.receivedAt pool tokenProgram mint e.2
    else 0).sum

variable {tx pool program tokenProgram mint}

theorem receivedAt_nonneg (place : Nat) : 0 ≤ tx.receivedAt pool tokenProgram mint place := by
  apply List.sum_nonneg
  intro x hx
  obtain ⟨t, _, rfl⟩ := List.mem_map.mp hx
  exact Int.natCast_nonneg t.amount

theorem total_proceeds (place : Nat) :
    MintAmount.total mint ((tx.innerOf place).filterMap
      (SettleEvent.proceeds? pool tx.keys tokenProgram)) =
      tx.receivedAt pool tokenProgram mint place := by
  rw [receivedAt]
  induction tx.innerOf place with
  | nil => rfl
  | cons x inner ih =>
    cases ht : x.transfer? tx.keys tokenProgram with
    | none => simp [SettleEvent.proceeds?, ht, ih]
    | some t =>
      cases hm : pool.assetAccounts.get? t.destination with
      | none => simp [SettleEvent.proceeds?, ht, hm, ih]
      | some m =>
        have hp : SettleEvent.proceeds? pool tx.keys tokenProgram x = some ⟨m, t.amount⟩ := by
          simp [SettleEvent.proceeds?, ht, hm]
        by_cases he : m = mint <;> simp [hp, ht, hm, he, ih, MintAmount.total_cons]

theorem fst_eventAt_eq_settle_iff {place : Nat} {c : Compiled} {e : PoolEvent}
    (hc : tx.Settles pool program c) :
    (tx.eventAt pool program tokenProgram place c).1 = some e ↔
      ∃ market openOrders, c.account? tx.keys SettleEvent.marketPosition = some market ∧
        c.account? tx.keys SettleEvent.openOrdersPosition = some openOrders ∧
        (tx.innerOf place).filterMap (SettleEvent.proceeds? pool tx.keys tokenProgram) ≠ [] ∧
        e = .settle (.shown tx (tx.innerOf place) pool tokenProgram market openOrders) := by
  have heffect := settles_iff.mp hc
  constructor
  · intro h
    cases e with
    | order o => cases heffect.symm.trans (eventAt_order h).1
    | settle s =>
      obtain ⟨market, openOrders, hm, ho, hne, rfl⟩ :=
        SettleEvent.ofInstruction_eq_some_iff.mp (eventAt_settle h).2
      exact ⟨market, openOrders, hm, ho, hne, rfl⟩
  · rintro ⟨market, openOrders, hm, ho, hne, rfl⟩
    have hfound := SettleEvent.ofInstruction_eq_some_iff.mpr ⟨market, openOrders, hm, ho, hne, rfl⟩
    have hevent := eventAt_eq_some_iff.mpr
      ⟨.settle, heffect, map_some_eq_ok_iff.mpr ⟨_, hfound, rfl⟩⟩
    rw [hevent]

variable (tx pool program tokenProgram mint)

theorem total_eventAt (place : Nat) (c : Compiled) :
    ((tx.eventAt pool program tokenProgram place c).1.elim 0 fun e =>
        MintAmount.total mint e.amounts) +
      (if tx.Settles pool program c ∧ ¬tx.NamesAccounts c then
        tx.receivedAt pool tokenProgram mint place else 0) =
      if tx.Settles pool program c then tx.receivedAt pool tokenProgram mint place else 0 := by
  by_cases hc : tx.Settles pool program c
  · cases hevent : (tx.eventAt pool program tokenProgram place c).1 with
    | some e =>
      obtain ⟨market, openOrders, hm, ho, _, rfl⟩ := (fst_eventAt_eq_settle_iff hc).mp hevent
      have hnamed : tx.NamesAccounts c := by simp [NamesAccounts, hm, ho]
      have htotal : MintAmount.total mint (SettleEvent.shown tx (tx.innerOf place) pool
          tokenProgram market openOrders).amounts = tx.receivedAt pool tokenProgram mint place :=
        (SettleEvent.total_totals _).trans (total_proceeds place)
      simpa [hc, hnamed] using htotal
    | none =>
      by_cases hnamed : tx.NamesAccounts c
      · obtain ⟨market, hm⟩ := Option.isSome_iff_exists.mp hnamed.1
        obtain ⟨openOrders, ho⟩ := Option.isSome_iff_exists.mp hnamed.2
        have hnothing : (tx.innerOf place).filterMap
            (SettleEvent.proceeds? pool tx.keys tokenProgram) = [] := by
          by_contra hne
          have hsome := (fst_eventAt_eq_settle_iff hc).mpr ⟨market, openOrders, hm, ho, hne, rfl⟩
          rw [hevent] at hsome
          cases hsome
        have hzero : tx.receivedAt pool tokenProgram mint place = 0 := by
          rw [← total_proceeds, hnothing, MintAmount.total_nil]
        simp [hzero]
      · simp [hc, hnamed]
  · cases hevent : (tx.eventAt pool program tokenProgram place c).1 with
    | none => simp [hc]
    | some e =>
      cases e with
      | settle s => exact absurd (settles_iff.mpr (eventAt_settle hevent).1) hc
      | order o => simp [hc]

theorem sum_filterMap {α β : Type} (f : α → Option β) (w : β → Int) (as : List α) :
    ((as.filterMap f).map w).sum = (as.map fun a => (f a).elim 0 w).sum := by
  induction as with
  | nil => rfl
  | cons a as ih => cases hf : f a <;> simp [hf, ih]

theorem total_events :
    ((tx.events pool program tokenProgram).map fun e => MintAmount.total mint e.amounts).sum +
      tx.unnamed pool program tokenProgram mint = tx.received pool program tokenProgram mint := by
  rw [events, List.map_reverse, List.sum_reverse, sum_filterMap, outcomes, List.map_map, unnamed,
    ← List.sum_map_add, received]
  exact congrArg List.sum (List.map_congr_left fun e _ =>
    tx.total_eventAt pool program tokenProgram mint e.2 e.1)

theorem total_eventsAll (txs : List Transaction) :
    ((txs.flatMap (·.events pool program tokenProgram)).map fun e =>
        MintAmount.total mint e.amounts).sum +
      (txs.map (·.unnamed pool program tokenProgram mint)).sum =
      (txs.map (·.received pool program tokenProgram mint)).sum := by
  induction txs with
  | nil => rfl
  | cons tx txs ih =>
    have htx := tx.total_events pool program tokenProgram mint
    simp only [List.flatMap_cons, List.map_append, List.sum_append, List.map_cons, List.sum_cons]
    omega

end Transaction

namespace Pairing

variable {events : List PoolEvent} {mint : Key}

/-- What the settlements of some paired orders add up to in a mint. -/
def settledIn (mint : Key) (paired : List PairedOrder) : Int :=
  (paired.map fun p => MintAmount.total mint p.settledAmounts).sum

/-- Every settlement of the list is attributed to an order. -/
def AllAttributed (events : List PoolEvent) : Prop :=
  ∀ j s, events[j]? = some (.settle s) → ∃ t ∈ attributions events, t.settle = some j

def broughtAt (mint : Key) (events : List PoolEvent) (j : Nat) : Int :=
  events[j]?.elim 0 fun e => MintAmount.total mint e.amounts

theorem settledIn_of_reads {ts : List Attribution} {ps : List PairedOrder}
    (h : List.Forall₂ (Attribution.Reads events) ts ps) :
    settledIn mint ps = ((ts.filterMap Attribution.settle).map (broughtAt mint events)).sum := by
  induction h with
  | nil => rfl
  | cons hr _ ih =>
    rw [settledIn, List.map_cons, List.sum_cons, ← settledIn, ih]
    cases hr with
    | pending => simp [PairedOrder.settledAmounts]
    | settled ho hs => simp [PairedOrder.settledAmounts, broughtAt, hs]

theorem mem_placesOf_of_attributed {j : Nat}
    (hj : j ∈ (attributions events).filterMap Attribution.settle) :
    j ∈ placesOf events PoolEvent.isSettle := by
  obtain ⟨s, hs⟩ := exists_settle_of_attributed hj
  exact mem_placesOf.mpr ⟨.settle s, hs, rfl⟩

theorem allAttributed_iff :
    AllAttributed events ↔ ∀ j ∈ placesOf events PoolEvent.isSettle,
      j ∈ (attributions events).filterMap Attribution.settle := by
  simp only [AllAttributed, List.mem_filterMap]
  constructor
  · intro h j hj
    obtain ⟨e, he, hsettle⟩ := mem_placesOf.mp hj
    cases e with
    | order o => cases hsettle
    | settle s => exact h j s he
  · intro h j s hs
    exact h j (mem_placesOf.mpr ⟨.settle s, hs, rfl⟩)

instance : DecidablePred AllAttributed := fun _ => decidable_of_iff _ allAttributed_iff.symm

theorem sum_broughtAt :
    ((placesOf events PoolEvent.isSettle).map (broughtAt mint events)).sum =
      (events.map fun e => MintAmount.total mint e.amounts).sum := by
  have hplaces : (placesOf events PoolEvent.isSettle).map (broughtAt mint events) =
      (events.filter PoolEvent.isSettle).map fun e => MintAmount.total mint e.amounts := by
    have hlook : broughtAt mint events =
        (·.elim 0 fun e => MintAmount.total mint e.amounts) ∘ (events[·]?) := rfl
    rw [hlook, ← List.map_map, map_placesOf, List.map_map]
    rfl
  rw [hplaces]
  clear hplaces
  induction events with
  | nil => rfl
  | cons e events ih => cases e <;> simp [List.filter_cons, ih]

theorem settledIn_pair_le (hpos : ∀ e ∈ events, 0 ≤ MintAmount.total mint e.amounts) :
    settledIn mint (pair events) ≤
      (events.map fun e => MintAmount.total mint e.amounts).sum := by
  have hplaces := List.subperm_of_subset (fifo_attributions events).settles_once
    fun _ => mem_placesOf_of_attributed
  obtain ⟨used, hperm, hsub⟩ := hplaces
  have hnonneg : ∀ x ∈ (placesOf events PoolEvent.isSettle).map (broughtAt mint events), 0 ≤ x := by
    intro x hx
    obtain ⟨j, hj, rfl⟩ := List.mem_map.mp hx
    obtain ⟨e, he, _⟩ := mem_placesOf.mp hj
    rw [broughtAt, he]
    exact hpos e (List.mem_of_getElem? he)
  calc settledIn mint (pair events)
    _ = _ := settledIn_of_reads (reads_pair events)
    _ = (used.map (broughtAt mint events)).sum := (hperm.map _).sum_eq.symm
    _ ≤ ((placesOf events PoolEvent.isSettle).map (broughtAt mint events)).sum :=
        (hsub.map _).sum_le_sum hnonneg
    _ = _ := sum_broughtAt

theorem settledIn_pair_eq (hall : AllAttributed events) :
    settledIn mint (pair events) =
      (events.map fun e => MintAmount.total mint e.amounts).sum := by
  have hplaces : ((attributions events).filterMap Attribution.settle).Perm
      (placesOf events PoolEvent.isSettle) :=
    (List.perm_ext_iff_of_nodup (fifo_attributions events).settles_once
      ((pairwise_placesOf _).imp Nat.ne_of_lt)).mpr
      fun j => ⟨mem_placesOf_of_attributed, allAttributed_iff.mp hall j⟩
  rw [settledIn_of_reads (reads_pair events), (hplaces.map _).sum_eq, sum_broughtAt]

end Pairing

namespace Transaction

variable {pool : TrackedPool} {program tokenProgram mint : Key} {txs : List Transaction}

theorem total_amounts_nonneg {e : PoolEvent}
    (he : e ∈ txs.flatMap (·.events pool program tokenProgram)) :
    0 ≤ MintAmount.total mint e.amounts := by
  obtain ⟨tx, _, htx⟩ := List.mem_flatMap.mp he
  obtain ⟨outcome, hmem, hevent⟩ := List.mem_filterMap.mp (List.mem_reverse.mp htx)
  obtain ⟨⟨c, place⟩, _, rfl⟩ := List.mem_map.mp hmem
  have htotal := tx.total_eventAt pool program tokenProgram mint place c
  have hreceived : 0 ≤ tx.receivedAt pool tokenProgram mint place := receivedAt_nonneg place
  rw [hevent, Option.elim_some] at htotal
  by_cases hc : tx.Settles pool program c <;> by_cases hnamed : tx.NamesAccounts c <;>
    simp [hc, hnamed] at htotal <;> omega

theorem unnamed_nonneg (tx : Transaction) : 0 ≤ tx.unnamed pool program tokenProgram mint := by
  apply List.sum_nonneg
  intro x hx
  obtain ⟨⟨c, place⟩, _, rfl⟩ := List.mem_map.mp hx
  dsimp only
  split
  · exact receivedAt_nonneg place
  · exact Int.le_refl 0

theorem unnamed_eq_zero {tx : Transaction}
    (h : ∀ c place, tx.instructions[place]? = some c → tx.Settles pool program c →
      tx.receivedAt pool tokenProgram mint place ≠ 0 → tx.NamesAccounts c) :
    tx.unnamed pool program tokenProgram mint = 0 := by
  apply List.sum_eq_zero
  intro x hx
  obtain ⟨⟨c, place⟩, hmem, rfl⟩ := List.mem_map.mp hx
  have hplace : tx.instructions[place]? = some c := List.mem_zipIdx_iff_getElem?.mp hmem
  rw [ite_eq_right_iff]
  rintro ⟨hc, hnamed⟩
  by_contra hne
  exact hnamed (h c place hplace hc hne)

variable (pool program tokenProgram mint txs)

/-- What the settlements of orders add up to in a mint is at most what the settlements of the pool
brought it in the mint. Nothing is missing if every settlement is attributed to an order, and none
that brought something was left out for want of its accounts. -/
theorem settledIn_le_received :
    Pairing.settledIn mint (Pairing.pair (txs.flatMap (·.events pool program tokenProgram))) ≤
        (txs.map (·.received pool program tokenProgram mint)).sum ∧
      (Pairing.AllAttributed (txs.flatMap (·.events pool program tokenProgram)) →
        (∀ tx ∈ txs, ∀ c place, tx.instructions[place]? = some c → tx.Settles pool program c →
          tx.receivedAt pool tokenProgram mint place ≠ 0 → tx.NamesAccounts c) →
        Pairing.settledIn mint (Pairing.pair (txs.flatMap (·.events pool program tokenProgram))) =
          (txs.map (·.received pool program tokenProgram mint)).sum) := by
  have htotal := total_eventsAll pool program tokenProgram mint txs
  constructor
  · have hle : Pairing.settledIn mint
        (Pairing.pair (txs.flatMap (·.events pool program tokenProgram))) ≤ _ :=
      Pairing.settledIn_pair_le fun _ => total_amounts_nonneg
    have hunnamed : 0 ≤ (txs.map (·.unnamed pool program tokenProgram mint)).sum := by
      apply List.sum_nonneg
      intro x hx
      obtain ⟨tx, _, rfl⟩ := List.mem_map.mp hx
      exact unnamed_nonneg tx
    omega
  · intro hall hnamed
    have hunnamed : (txs.map (·.unnamed pool program tokenProgram mint)).sum = 0 := by
      apply List.sum_eq_zero
      intro x hx
      obtain ⟨tx, htx, rfl⟩ := List.mem_map.mp hx
      exact unnamed_eq_zero (hnamed tx htx)
    rw [Pairing.settledIn_pair_eq hall]
    omega

def bidThenSettle (settleAccounts : List Nat) : Transaction where
  signature := "a"
  slot := 5
  keys := [.ofNat 19, .ofNat 15, .ofNat 20, .ofNat 2, .ofNat 4]
  instructions := [
    ⟨2, [3, 3, 1, 4],
      (Instruction.encode ⟨Call.oneMarket.seed, .createOrder Call.bid⟩).toOption.getD []⟩,
    ⟨2, settleAccounts, Tag.settleFunds.code :: Call.oneMarket.seed ++ List.replicate 16 0⟩]
  inner := [(0, .only Call.transfer513), (1, .only Call.transfer513)]

theorem settledIn_le_received_bidThenSettle :
    let events := [bidThenSettle [3, 4]].flatMap (·.events Call.oneMarket (.ofNat 20) (.ofNat 19))
    Pairing.AllAttributed events ∧ Pairing.settledIn (.ofNat 18) (Pairing.pair events) = 513 ∧
      Pairing.settledIn (.ofNat 18) (Pairing.pair events) =
        ([bidThenSettle [3, 4]].map
          (·.received Call.oneMarket (.ofNat 20) (.ofNat 19) (.ofNat 18))).sum := by
  intro events
  have hattributed : Pairing.AllAttributed events := by decide +kernel
  have hnamed : ∀ c ∈ (bidThenSettle [3, 4]).instructions,
      (bidThenSettle [3, 4]).Settles Call.oneMarket (.ofNat 20) c →
      (bidThenSettle [3, 4]).NamesAccounts c := by decide +kernel
  refine ⟨hattributed, by decide +kernel, ?_⟩
  refine (settledIn_le_received Call.oneMarket (.ofNat 20) (.ofNat 19) (.ofNat 18)
    [bidThenSettle [3, 4]]).2 hattributed fun tx htx c place hplace hc _ => ?_
  cases List.mem_singleton.mp htx
  exact hnamed c (List.mem_of_getElem? hplace) hc

/-- Without its open orders account the settlement is left out, and what it brought with it. -/
theorem received_without_openOrders :
    let events := [bidThenSettle [3]].flatMap (·.events Call.oneMarket (.ofNat 20) (.ofNat 19))
    Pairing.AllAttributed events ∧ Pairing.settledIn (.ofNat 18) (Pairing.pair events) = 0 ∧
      ([bidThenSettle [3]].map
        (·.received Call.oneMarket (.ofNat 20) (.ofNat 19) (.ofNat 18))).sum = 513 := by
  intro events
  exact ⟨by decide +kernel, by decide +kernel, by decide +kernel⟩

end Transaction

end SignalPool
