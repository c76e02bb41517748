import SignalPool.Extraction
import SignalPool.Proofs.Outcomes

namespace SignalPool

namespace Compiled

theorem account_eq_ok_iff {c : Compiled} {keys : List Key} {position : Nat} {k : Key} :
    c.account keys position = .ok k ↔ c.account? keys position = some k := by
  rw [account]
  cases c.account? keys position with
  | none => simp
  | some a => simp

structure Transfers (c : Compiled) (keys : List Key) (tokenProgram : Key) (t : Transfer) :
    Prop where
  program : c.programKey? keys = some tokenProgram
  code : c.data.head? = some transferCode
  size : 9 ≤ c.data.length
  destination : c.account? keys 1 = some t.destination
  amount : t.amount = Bytes.littleEndian ((c.data.drop 1).take 8)

theorem transfer?_eq_some_iff {c : Compiled} {keys : List Key} {tokenProgram : Key} {t : Transfer} :
    c.transfer? keys tokenProgram = some t ↔ c.Transfers keys tokenProgram t := by
  constructor
  · intro h
    rw [transfer?, Option.ite_none_left_eq_some, Option.ite_none_left_eq_some,
      Option.map_eq_some_iff] at h
    obtain ⟨hprogram, hdata, destination, hdestination, rfl⟩ := h
    rw [not_or, Nat.not_lt, Decidable.not_not] at hdata
    exact ⟨Decidable.not_not.mp hprogram, hdata.2, hdata.1, hdestination, rfl⟩
  · rintro ⟨hprogram, hcode, hsize, hdestination, hamount⟩
    have hdata : ¬(c.data.length < 9 ∨ c.data.head? ≠ some transferCode) := by
      rw [not_or, Nat.not_lt, Decidable.not_not]
      exact ⟨hsize, hcode⟩
    rw [transfer?, if_neg (Decidable.not_not.mpr hprogram), if_neg hdata, hdestination,
      Option.map_some, ← hamount]

end Compiled

namespace OrderEvent

variable {tx : Transaction} {c : Compiled} {inner : List Compiled} {pool : TrackedPool}
  {tokenProgram : Key}

theorem ofInstruction_eq_some_iff {e : OrderEvent} :
    ofInstruction tx c inner pool tokenProgram = .ok (some e) ↔
      ∃ terms openOrders market t, OrderTerms.decode c.data = .ok terms ∧
        c.account? tx.keys openOrdersPosition = some openOrders ∧
        marketOf pool tx.keys c terms.marketIndex = .ok market ∧
        inner.findSome? (·.transfer? tx.keys tokenProgram) = some t ∧
        e = { signature := tx.signature, slot := tx.slot, openOrders, market,
              seed := Instruction.seedOf c.data, terms, transferred := t.amount } := by
  simp only [ofInstruction, bind_eq_ok_iff, Compiled.account_eq_ok_iff, pure, Except.pure,
    Except.ok.injEq, Option.map_eq_some_iff]
  constructor
  · rintro ⟨terms, ht, openOrders, ho, market, hm, t, hf, rfl⟩
    exact ⟨terms, openOrders, market, t, ht, ho, hm, hf, rfl⟩
  · rintro ⟨terms, openOrders, market, t, ht, ho, hm, hf, rfl⟩
    exact ⟨terms, ht, openOrders, ho, market, hm, t, hf, rfl⟩

end OrderEvent

namespace SettleEvent

theorem add_ne_nil (totals : Table Key Int) (a : MintAmount Int) : add totals a ≠ [] := by
  cases totals with
  | nil => simp [add, Table.insert]
  | cons e t =>
    rw [add, Table.insert]
    split
    · exact List.cons_ne_nil _ _
    · exact List.cons_ne_nil _ _

theorem foldl_add_eq_nil_iff (totals : Table Key Int) (amounts : List (MintAmount Int)) :
    amounts.foldl add totals = [] ↔ totals = [] ∧ amounts = [] := by
  induction amounts generalizing totals with
  | nil => simp
  | cons a amounts ih => simp [ih, add_ne_nil]

theorem totals_eq_nil_iff (amounts : List (MintAmount Int)) :
    totals amounts = [] ↔ amounts = [] := by
  simp [totals, foldl_add_eq_nil_iff]

def shown (tx : Transaction) (inner : List Compiled) (pool : TrackedPool) (tokenProgram : Key)
    (market openOrders : Key) : SettleEvent where
  signature := tx.signature
  slot := tx.slot
  openOrders := openOrders
  market := market
  amounts := (totals (inner.filterMap (proceeds? pool tx.keys tokenProgram))).map
    fun e => ⟨e.1, e.2⟩

variable {tx : Transaction} {c : Compiled} {inner : List Compiled} {pool : TrackedPool}
  {tokenProgram : Key}

theorem ofInstruction_eq_some_iff {e : SettleEvent} :
    ofInstruction tx c inner pool tokenProgram = .ok (some e) ↔
      ∃ market openOrders, c.account? tx.keys marketPosition = some market ∧
        c.account? tx.keys openOrdersPosition = some openOrders ∧
        inner.filterMap (proceeds? pool tx.keys tokenProgram) ≠ [] ∧
        e = shown tx inner pool tokenProgram market openOrders := by
  have hnil := totals_eq_nil_iff (inner.filterMap (proceeds? pool tx.keys tokenProgram))
  simp only [ofInstruction, bind_eq_ok_iff, Compiled.account_eq_ok_iff]
  cases htotals : totals (inner.filterMap (proceeds? pool tx.keys tokenProgram)) with
  | nil =>
    constructor
    · rintro ⟨market, _, openOrders, _, h⟩
      cases h
    · rintro ⟨market, openOrders, _, _, hne, _⟩
      exact absurd (hnil.mp htotals) hne
  | cons x found =>
    have hne : inner.filterMap (proceeds? pool tx.keys tokenProgram) ≠ [] := by
      intro h
      rw [hnil.mpr h] at htotals
      cases htotals
    constructor
    · rintro ⟨market, hm, openOrders, ho, h⟩
      cases h
      exact ⟨market, openOrders, hm, ho, hne, by rw [shown, htotals]⟩
    · rintro ⟨market, openOrders, hm, ho, _, rfl⟩
      exact ⟨market, hm, openOrders, ho, by rw [shown, htotals]; rfl⟩

end SettleEvent

namespace PoolEvent

variable {tx : Transaction} {c : Compiled} {pool : TrackedPool} {tokenProgram : Key}

theorem ofInstruction_nil (effect : Effect) (e : PoolEvent) :
    ofInstruction effect tx c [] pool tokenProgram ≠ .ok (some e) := by
  intro h
  cases effect with
  | order =>
    obtain ⟨o, ho, _⟩ := map_some_eq_ok_iff.mp h
    obtain ⟨_, _, _, _, _, _, _, hf, _⟩ := OrderEvent.ofInstruction_eq_some_iff.mp ho
    cases hf
  | settle =>
    obtain ⟨s, hs, _⟩ := map_some_eq_ok_iff.mp h
    obtain ⟨_, _, _, _, hne, _⟩ := SettleEvent.ofInstruction_eq_some_iff.mp hs
    exact hne rfl

end PoolEvent

namespace Effect

theorem ofData?_eq_some_iff {data : Bytes} {effect : Effect} :
    ofData? data = some effect ↔ data.head? = some effect.tag.code := by
  cases data with
  | nil => simp [ofData?]
  | cons b rest =>
    have hne : Tag.settleFunds.code ≠ Tag.createOrder.code := by decide
    by_cases ho : b = Tag.createOrder.code
    · subst ho
      cases effect <;> simp [ofData?, tag, hne.symm]
    · by_cases hs : b = Tag.settleFunds.code
      · subst hs
        cases effect <;> simp [ofData?, tag, hne]
      · cases effect <;> simp [ofData?, tag, ho, hs]

end Effect

namespace Transaction

variable {tx : Transaction} {pool : TrackedPool} {program tokenProgram : Key} {c : Compiled}

theorem effectOn?_eq_some_iff {effect : Effect} :
    tx.effectOn? pool program c = some effect ↔
      c.programKey? tx.keys = some program ∧ Instruction.seedOf c.data = pool.seed ∧
        c.data.head? = some effect.tag.code := by
  simp [effectOn?, Effect.ofData?_eq_some_iff]

/-- An instruction of the program settles funds for the pool. -/
def Settles (tx : Transaction) (pool : TrackedPool) (program : Key) (c : Compiled) : Prop :=
  c.programKey? tx.keys = some program ∧ Instruction.seedOf c.data = pool.seed ∧
    c.data.head? = some Tag.settleFunds.code

instance (c : Compiled) : Decidable (tx.Settles pool program c) :=
  inferInstanceAs (Decidable (_ ∧ _ ∧ _))

theorem settles_iff : tx.Settles pool program c ↔ tx.effectOn? pool program c = some .settle := by
  rw [effectOn?_eq_some_iff]
  rfl

/-- An instruction gives an event, and then no report, exactly if it has an effect on the pool and
its inner instructions show it. -/
theorem eventAt_eq_some_iff {place : Nat} {e : PoolEvent} :
    tx.eventAt pool program tokenProgram place c = (some e, []) ↔
      ∃ effect, tx.effectOn? pool program c = some effect ∧
        PoolEvent.ofInstruction effect tx c (tx.innerOf place) pool tokenProgram =
          .ok (some e) := by
  rw [eventAt]
  cases heffect : tx.effectOn? pool program c with
  | none => simp
  | some effect =>
    cases hinner : tx.innerOf place with
    | nil => simp [PoolEvent.ofInstruction_nil]
    | cons x inner =>
      cases hfound : PoolEvent.ofInstruction effect tx c (x :: inner) pool tokenProgram with
      | error f => simp [hfound]
      | ok event =>
        cases event with
        | none => simp [hfound]
        | some e' => simp [hfound, PoolEvent.warningsOf]

theorem eventAt_of_fst_eq_some {place : Nat} {e : PoolEvent}
    (h : (tx.eventAt pool program tokenProgram place c).1 = some e) :
    tx.eventAt pool program tokenProgram place c = (some e, []) := by
  rw [eventAt] at h ⊢
  cases heffect : tx.effectOn? pool program c with
  | none => simp [heffect] at h
  | some effect =>
    cases hinner : tx.innerOf place with
    | nil => simp [heffect, hinner] at h
    | cons x inner =>
      cases hfound : PoolEvent.ofInstruction effect tx c (x :: inner) pool tokenProgram with
      | error f => simp [heffect, hinner, hfound] at h
      | ok event =>
        have hevent : event = some e := by simpa [heffect, hinner, hfound] using h
        subst hevent
        simp [hfound, PoolEvent.warningsOf]

theorem fst_eventAt_eq_some_iff {place : Nat} {e : PoolEvent} :
    (tx.eventAt pool program tokenProgram place c).1 = some e ↔
      ∃ effect, tx.effectOn? pool program c = some effect ∧
        PoolEvent.ofInstruction effect tx c (tx.innerOf place) pool tokenProgram =
          .ok (some e) := by
  constructor
  · intro h
    exact eventAt_eq_some_iff.mp (eventAt_of_fst_eq_some h)
  · intro h
    rw [eventAt_eq_some_iff.mpr h]

theorem eventAt_order {place : Nat} {e : OrderEvent}
    (h : (tx.eventAt pool program tokenProgram place c).1 = some (.order e)) :
    tx.effectOn? pool program c = some .order ∧
      OrderEvent.ofInstruction tx c (tx.innerOf place) pool tokenProgram = .ok (some e) := by
  obtain ⟨effect, heffect, hfound⟩ := fst_eventAt_eq_some_iff.mp h
  cases effect with
  | order =>
    obtain ⟨e', he, heq⟩ := map_some_eq_ok_iff.mp hfound
    cases heq
    exact ⟨heffect, he⟩
  | settle =>
    obtain ⟨_, _, heq⟩ := map_some_eq_ok_iff.mp hfound
    cases heq

theorem eventAt_settle {place : Nat} {e : SettleEvent}
    (h : (tx.eventAt pool program tokenProgram place c).1 = some (.settle e)) :
    tx.effectOn? pool program c = some .settle ∧
      SettleEvent.ofInstruction tx c (tx.innerOf place) pool tokenProgram = .ok (some e) := by
  obtain ⟨effect, heffect, hfound⟩ := fst_eventAt_eq_some_iff.mp h
  cases effect with
  | settle =>
    obtain ⟨e', he, heq⟩ := map_some_eq_ok_iff.mp hfound
    cases heq
    exact ⟨heffect, he⟩
  | order =>
    obtain ⟨_, _, heq⟩ := map_some_eq_ok_iff.mp hfound
    cases heq

theorem getElem?_outcomes (tx : Transaction) (pool : TrackedPool) (program tokenProgram : Key)
    (place : Nat) : (tx.outcomes pool program tokenProgram)[place]? =
      tx.instructions[place]?.map (tx.eventAt pool program tokenProgram place) := by
  simp [outcomes, Function.comp_def]

theorem outcomes_congr {tx' : Transaction}
    (hcount : tx.instructions.length = tx'.instructions.length)
    (h : ∀ place c c', tx.instructions[place]? = some c → tx'.instructions[place]? = some c' →
      tx.eventAt pool program tokenProgram place c =
        tx'.eventAt pool program tokenProgram place c') :
    tx.outcomes pool program tokenProgram = tx'.outcomes pool program tokenProgram := by
  apply List.ext_getElem?
  intro place
  rw [getElem?_outcomes, getElem?_outcomes]
  by_cases hplace : place < tx.instructions.length
  · have hc : tx.instructions[place]? = some tx.instructions[place] :=
      List.getElem?_eq_getElem hplace
    have hplace' : place < tx'.instructions.length := hcount ▸ hplace
    have hc' : tx'.instructions[place]? = some tx'.instructions[place] :=
      List.getElem?_eq_getElem hplace'
    rw [hc, hc', Option.map_some, Option.map_some, h place _ _ hc hc']
  · have hnone : tx.instructions[place]? = none := List.getElem?_eq_none (Nat.le_of_not_lt hplace)
    have hnone' : tx'.instructions[place]? = none :=
      List.getElem?_eq_none (hcount ▸ Nat.le_of_not_lt hplace)
    rw [hnone, hnone', Option.map_none, Option.map_none]

variable (tx pool program tokenProgram) in
/-- The instruction at a place adds an event and is not reported. The events of later instructions
stand before it, those of earlier ones after it. -/
structure Emits (place : Nat) (e : PoolEvent) : Prop where
  outcome : (tx.outcomes pool program tokenProgram)[place]? = some (some e, [])
  events : tx.events pool program tokenProgram =
    (((tx.outcomes pool program tokenProgram).drop (place + 1)).filterMap Prod.fst).reverse ++
      e :: (((tx.outcomes pool program tokenProgram).take place).filterMap Prod.fst).reverse

theorem emits_of_eventAt {place : Nat} {e : PoolEvent} (hc : tx.instructions[place]? = some c)
    (h : tx.eventAt pool program tokenProgram place c = (some e, [])) :
    tx.Emits pool program tokenProgram place e := by
  have houtcome : (tx.outcomes pool program tokenProgram)[place]? = some (some e, []) := by
    rw [getElem?_outcomes, hc, Option.map_some, h]
  obtain ⟨hlt, hget⟩ := List.getElem?_eq_some_iff.mp houtcome
  have hsplit : tx.outcomes pool program tokenProgram =
      (tx.outcomes pool program tokenProgram).take place ++
        (some e, []) :: (tx.outcomes pool program tokenProgram).drop (place + 1) := by
    rw [← hget, List.getElem_cons_drop, List.take_append_drop]
  refine ⟨houtcome, ?_⟩
  calc tx.events pool program tokenProgram
    _ = (((tx.outcomes pool program tokenProgram).take place ++ (some e, []) ::
          (tx.outcomes pool program tokenProgram).drop (place + 1)).filterMap Prod.fst).reverse :=
        congrArg (fun l => (l.filterMap Prod.fst).reverse) hsplit
    _ = _ := by simp

end Transaction

end SignalPool
