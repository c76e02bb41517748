import SignalPool.Proofs.Batching
import SignalPool.Proofs.Recognition

namespace SignalPool

namespace OrderTerms

theorem decode_eq_ok_iff {d : Bytes} {terms : OrderTerms}
    (hhead : d.head? = some Tag.createOrder.code) :
    decode d = .ok terms ↔
      Instruction.decode Tag.createOrder.code d =
        .ok ⟨Instruction.seedOf d, .createOrder terms⟩ := by
  refine ⟨Instruction.decode_of_orderTerms hhead, fun h => ?_⟩
  obtain ⟨_, hbody, _⟩ := Instruction.decode_eq_ok_iff.mp h
  obtain ⟨hfull, c', hrun⟩ := Tag.body_eq_ok_iff.mp hbody
  obtain ⟨terms', hrun', heq⟩ := Reader.run_map_eq_ok.mp hrun
  cases heq
  obtain ⟨rest, rfl⟩ := List.head?_eq_some_iff.mp hhead
  exact Tag.body_eq_ok_iff.mpr ⟨hfull, c', hrun'⟩

theorem marketIndex_nonneg {seed d : Bytes} {terms : OrderTerms}
    (h : Instruction.decode Tag.createOrder.code d = .ok ⟨seed, .createOrder terms⟩) :
    0 ≤ terms.marketIndex := by
  have hencode := Instruction.encode_of_decode (t := .createOrder) h
  have hfits := (Instruction.exists_encode_iff.mp ⟨_, hencode⟩).2
  have hfield : (Field.word .u16 terms.marketIndex).Fits :=
    hfits _ (by simp [Action.fields, fields])
  exact hfield.1

end OrderTerms

namespace Compiled

variable {keys : List Key} {tokenProgram : Key} {inner : List Compiled} {t : Transfer}

theorem transfer?_eq_none_iff {c : Compiled} :
    c.transfer? keys tokenProgram = none ↔ ∀ t, ¬c.Transfers keys tokenProgram t := by
  rw [Option.eq_none_iff_forall_ne_some]
  exact forall_congr' fun t => not_congr transfer?_eq_some_iff

/-- Among some instructions there is a transfer, and no other before it. -/
def FirstTransfer (inner : List Compiled) (keys : List Key) (tokenProgram : Key) (t : Transfer) :
    Prop :=
  ∃ before x after, inner = before ++ x :: after ∧ x.Transfers keys tokenProgram t ∧
    ∀ y ∈ before, ∀ u, ¬y.Transfers keys tokenProgram u

theorem findSome?_transfer?_eq_some_iff :
    inner.findSome? (·.transfer? keys tokenProgram) = some t ↔
      FirstTransfer inner keys tokenProgram t := by
  simp only [List.findSome?_eq_some_iff, transfer?_eq_some_iff, transfer?_eq_none_iff,
    FirstTransfer]

theorem exists_firstTransfer_iff :
    (∃ t, FirstTransfer inner keys tokenProgram t) ↔
      ∃ x ∈ inner, ∃ t, x.Transfers keys tokenProgram t := by
  simp only [← findSome?_transfer?_eq_some_iff, ← transfer?_eq_some_iff, ← Option.isSome_iff_exists,
    List.findSome?_isSome_iff]

end Compiled

namespace Transaction

variable (tx : Transaction) (pool : TrackedPool) (program tokenProgram : Key) (place : Nat)
  (c : Compiled)

/-- What an instruction that places an order has to show for an event: data that decode, the
accounts that the event names, and a transfer. Its own market is only asked for where the pool has
none with the index of the order. -/
structure ShowsOrder : Prop where
  terms : ∃ terms, Instruction.decode Tag.createOrder.code c.data =
      .ok ⟨pool.seed, .createOrder terms⟩ ∧
    (terms.marketIndex < pool.markets.length ∨
      (c.account? tx.keys OrderEvent.marketPosition).isSome)
  openOrders : (c.account? tx.keys OrderEvent.openOrdersPosition).isSome
  transfer : ∃ x ∈ tx.innerOf place, ∃ t, x.Transfers tx.keys tokenProgram t

/-- The event of an order states what the instruction shows. -/
structure States (e : OrderEvent) : Prop where
  signature : e.signature = tx.signature
  slot : e.slot = tx.slot
  seed : e.seed = pool.seed
  terms : Instruction.decode Tag.createOrder.code c.data = .ok ⟨pool.seed, .createOrder e.terms⟩
  openOrders : c.account? tx.keys OrderEvent.openOrdersPosition = some e.openOrders
  market : (pool.markets[e.terms.marketIndex.toNat]?).or
    (c.account? tx.keys OrderEvent.marketPosition) = some e.market
  transferred : ∃ t, Compiled.FirstTransfer (tx.innerOf place) tx.keys tokenProgram t ∧
    e.transferred = t.amount

variable {tx pool program tokenProgram place c}

theorem marketOf_eq_ok_iff {keys : List Key} {index : Int} {market : Key} :
    OrderEvent.marketOf pool keys c index = .ok market ↔
      (pool.markets[index.toNat]?).or (c.account? keys OrderEvent.marketPosition) =
        some market := by
  rw [OrderEvent.marketOf]
  cases pool.markets[index.toNat]? with
  | none => rw [Option.none_or, Compiled.account_eq_ok_iff]
  | some k => rw [Option.some_or, Except.ok.injEq, Option.some.injEq]

theorem isSome_market_iff {markets : List Key} {index : Int} (hindex : 0 ≤ index)
    (own : Option Key) :
    ((markets[index.toNat]?).or own).isSome ↔ index < markets.length ∨ own.isSome := by
  have hlisted : (markets[index.toNat]?).isSome ↔ index < markets.length := by
    rw [Option.isSome_iff_ne_none, ne_eq, List.getElem?_eq_none_iff]
    omega
  rw [Option.isSome_or, Bool.or_eq_true, hlisted]

theorem states_iff {e : OrderEvent} (hseed : Instruction.seedOf c.data = pool.seed)
    (hhead : c.data.head? = some Tag.createOrder.code) :
    tx.States pool tokenProgram place c e ↔
      OrderEvent.ofInstruction tx c (tx.innerOf place) pool tokenProgram = .ok (some e) := by
  simp only [OrderEvent.ofInstruction_eq_some_iff, OrderTerms.decode_eq_ok_iff hhead, hseed,
    marketOf_eq_ok_iff, Compiled.findSome?_transfer?_eq_some_iff]
  constructor
  · rintro ⟨hsignature, hslot, hown, hterms, hopenOrders, hmarket, t, ht, hamount⟩
    refine ⟨e.terms, e.openOrders, e.market, t, hterms, hopenOrders, hmarket, ht, ?_⟩
    rw [← hsignature, ← hslot, ← hown, ← hamount]
  · rintro ⟨terms, openOrders, market, t, hterms, hopenOrders, hmarket, ht, rfl⟩
    exact ⟨rfl, rfl, rfl, hterms, hopenOrders, hmarket, t, ht, rfl⟩

theorem showsOrder_iff :
    tx.ShowsOrder pool tokenProgram place c ↔
      ∃ e, tx.States pool tokenProgram place c e := by
  constructor
  · rintro ⟨⟨terms, hterms, hmarket⟩, hopenOrders, htransfer⟩
    have hindex := OrderTerms.marketIndex_nonneg hterms
    obtain ⟨market, hmarket⟩ :=
      Option.isSome_iff_exists.mp ((isSome_market_iff hindex _).mpr hmarket)
    obtain ⟨openOrders, hopenOrders⟩ := Option.isSome_iff_exists.mp hopenOrders
    obtain ⟨t, ht⟩ := Compiled.exists_firstTransfer_iff.mpr htransfer
    exact ⟨⟨tx.signature, tx.slot, openOrders, market, pool.seed, terms, t.amount⟩, rfl, rfl, rfl,
      hterms, hopenOrders, hmarket, t, ht, rfl⟩
  · rintro ⟨e, h⟩
    obtain ⟨t, ht, _⟩ := h.transferred
    have hindex := OrderTerms.marketIndex_nonneg h.terms
    have hmarket := (isSome_market_iff hindex _).mp (Option.isSome_iff_exists.mpr ⟨_, h.market⟩)
    exact ⟨⟨e.terms, h.terms, hmarket⟩, Option.isSome_iff_exists.mpr ⟨_, h.openOrders⟩,
      Compiled.exists_firstTransfer_iff.mp ⟨t, ht⟩⟩

theorem fst_eventAt_eq_order_iff {e : OrderEvent}
    (heffect : tx.effectOn? pool program c = some .order) :
    (tx.eventAt pool program tokenProgram place c).1 = some (.order e) ↔
      tx.States pool tokenProgram place c e := by
  obtain ⟨_, hseed, hhead⟩ := effectOn?_eq_some_iff.mp heffect
  rw [states_iff hseed hhead]
  refine ⟨fun h => (eventAt_order h).2, fun h => ?_⟩
  exact fst_eventAt_eq_some_iff.mpr ⟨.order, heffect, map_some_eq_ok_iff.mpr ⟨e, h, rfl⟩⟩

theorem fst_eventAt_eq_none (heffect : tx.effectOn? pool program c = some .order)
    (h : ¬tx.ShowsOrder pool tokenProgram place c) :
    (tx.eventAt pool program tokenProgram place c).1 = none := by
  cases hevent : (tx.eventAt pool program tokenProgram place c).1 with
  | none => rfl
  | some e =>
    cases e with
    | order o =>
      exact absurd (showsOrder_iff.mpr ⟨o, (fst_eventAt_eq_order_iff heffect).mp hevent⟩) h
    | settle s => cases heffect.symm.trans (eventAt_settle hevent).1

theorem events_eq_order_iff {e : OrderEvent} (hc : tx.instructions[place]? = some c)
    (heffect : tx.effectOn? pool program c = some .order) :
    tx.events pool program tokenProgram = (tx.drop (place + 1)).events pool program tokenProgram ++
        .order e :: (tx.take place).events pool program tokenProgram ↔
      tx.States pool tokenProgram place c e := by
  rw [events_around pool program tokenProgram hc, List.append_cancel_left_eq,
    ← List.singleton_append, List.append_cancel_right_eq, ← fst_eventAt_eq_order_iff heffect]
  cases (tx.eventAt pool program tokenProgram place c).1 <;> simp

variable (tx pool program tokenProgram place) in
/-- An instruction of the program that should place an order for the pool adds one event exactly if
it shows an order, and the event states what it shows: the order as it decodes, and the amount of
the first transfer. Otherwise it adds nothing. In both cases the instructions after it and before it
add what they add without it. -/
theorem order_extracted (hc : tx.instructions[place]? = some c)
    (hprogram : c.programKey? tx.keys = some program)
    (htag : c.data.head? = some Tag.createOrder.code)
    (hseed : Instruction.seedOf c.data = pool.seed) :
    let later := (tx.drop (place + 1)).events pool program tokenProgram
    let earlier := (tx.take place).events pool program tokenProgram
    ((∃ e, tx.events pool program tokenProgram = later ++ .order e :: earlier) ↔
        tx.ShowsOrder pool tokenProgram place c) ∧
      (∀ e, tx.events pool program tokenProgram = later ++ .order e :: earlier ↔
        tx.States pool tokenProgram place c e) ∧
      (¬tx.ShowsOrder pool tokenProgram place c →
        tx.events pool program tokenProgram = later ++ earlier) := by
  intro later earlier
  have heffect : tx.effectOn? pool program c = some .order :=
    effectOn?_eq_some_iff.mpr ⟨hprogram, hseed, htag⟩
  have hstates (e : OrderEvent) : tx.events pool program tokenProgram =
      later ++ .order e :: earlier ↔ tx.States pool tokenProgram place c e :=
    events_eq_order_iff hc heffect
  refine ⟨?_, hstates, fun hnone => ?_⟩
  · rw [showsOrder_iff]
    exact exists_congr hstates
  · rw [events_around pool program tokenProgram hc, fst_eventAt_eq_none heffect hnone]
    rfl

def bidAmid (accounts : List Nat) : Transaction where
  signature := "a"
  slot := 5
  keys := [.ofNat 19, .ofNat 15, .ofNat 20, .ofNat 2, .ofNat 4]
  instructions := [
    ⟨2, [3, 4], Tag.settleFunds.code :: Call.oneMarket.seed⟩,
    ⟨2, accounts,
      (Instruction.encode ⟨Call.oneMarket.seed, .createOrder Call.bid⟩).toOption.getD []⟩,
    ⟨2, [3, 4], Tag.settleFunds.code :: Call.oneMarket.seed⟩]
  inner := [(0, .only Call.transfer513),
    (1, ⟨[⟨0, [1, 1], [3, 7, 0]⟩, ⟨1, [1, 1], [3, 7, 0, 0, 0, 0, 0, 0, 0]⟩, Call.transfer513,
      ⟨0, [1, 1], [3, 7, 0, 0, 0, 0, 0, 0, 0]⟩], by decide⟩),
    (2, .only Call.transfer513)]

theorem order_extracted_amid :
    let events (tx : Transaction) := tx.events Call.oneMarket (.ofNat 20) (.ofNat 19)
    let named := bidAmid [3, 3, 1, 4]
    let unnamed := bidAmid [3, 77, 1, 4]
    (events named).length = 3 ∧
      events named = events (named.drop 2) ++ .order {
        signature := "a", slot := 5, openOrders := .ofNat 4, market := .ofNat 2,
        seed := Call.oneMarket.seed, terms := Call.bid, transferred := 513 } ::
          events (named.take 1) ∧
      (events unnamed).length = 2 ∧
      events unnamed = events (unnamed.drop 2) ++ events (unnamed.take 1) := by
  intro events named unnamed
  have hdecode : Instruction.decode Tag.createOrder.code
      ((Instruction.encode ⟨Call.oneMarket.seed, .createOrder Call.bid⟩).toOption.getD []) =
        .ok ⟨Call.oneMarket.seed, .createOrder Call.bid⟩ := by decide +kernel
  obtain ⟨_, hstates, _⟩ := order_extracted named Call.oneMarket (.ofNat 20) (.ofNat 19) 1
    rfl rfl rfl rfl
  obtain ⟨_, _, hnothing⟩ := order_extracted unnamed Call.oneMarket (.ofNat 20) (.ofNat 19) 1
    rfl rfl rfl rfl
  refine ⟨by decide +kernel, (hstates _).mpr ?_, by decide +kernel, hnothing ?_⟩
  · exact ⟨rfl, rfl, rfl, hdecode, rfl, rfl, ⟨.ofNat 15, 513⟩,
      Compiled.findSome?_transfer?_eq_some_iff.mp (by decide +kernel), rfl⟩
  · rintro ⟨⟨terms, hterms, hmarket⟩, _, _⟩
    cases hdecode.symm.trans hterms
    revert hmarket
    decide +kernel

end Transaction

end SignalPool
