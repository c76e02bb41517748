import Mathlib.Data.List.Basic
import SignalPool.Proofs.HumanUnits
import SignalPool.Proofs.Magnitude
import SignalPool.Proofs.Tables
import SignalPool.Reconstruction

namespace SignalPool

namespace PairedOrder

def settledAmounts (p : PairedOrder) : List (MintAmount Int) :=
  (p.settle.map SettleEvent.amounts).getD []

def moved (p : PairedOrder) (m : Market) : List Key :=
  m.sourceMint p.order.terms.side :: p.settledAmounts.map MintAmount.mint

theorem Counted.settledAmounts {p : PairedOrder} (hp : p.Counted) :
    ∀ a ∈ p.settledAmounts, (Field.word .u128 a.amount).Fits := by
  rw [PairedOrder.settledAmounts]
  cases hs : p.settle with
  | none => exact List.forall_mem_nil _
  | some s => exact hp.settle s hs

end PairedOrder

namespace Order

variable {α β : Type}

/-- The outcome is a value exactly under a condition, and the arithmetic never fails. -/
def Sound (x : Except RestateFault α) (P : Prop) : Prop :=
  (P ∧ ∃ a, x = .ok a) ∨ (¬P ∧ ∃ f, x = .error f ∧ ∀ g, f ≠ .decimal g)

theorem Sound.bind {x : Except RestateFault α} {k : α → Except RestateFault β} {P Q : Prop}
    (hx : Sound x P) (hk : ∀ a, Sound (k a) Q) : Sound (x >>= k) (P ∧ Q) := by
  obtain ⟨hp, a, rfl⟩ | ⟨hp, f, rfl, hf⟩ := hx
  · obtain ⟨hq, hok⟩ | ⟨hq, herror⟩ := hk a
    · exact .inl ⟨⟨hp, hq⟩, hok⟩
    · exact .inr ⟨fun h => hq h.2, herror⟩
  · exact .inr ⟨fun h => hp h.1, f, rfl, hf⟩

theorem Sound.congr {x : Except RestateFault α} {P Q : Prop} (hx : Sound x P) (h : P ↔ Q) :
    Sound x Q := by
  rw [Sound, ← h]
  exact hx

theorem Sound.pure (a : α) : Sound (pure a) True := .inl ⟨trivial, a, rfl⟩

def Small (decimals : Table Key Int) : Prop :=
  ∀ k d, decimals.get? k = some d → ∃ n : Nat, d = n ∧ n < 256

variable {decimals : Table Key Int}

theorem exists_amount {raw : Int} (hraw : (Field.word .u128 raw).Fits) {d : Nat}
    (hd : d ≤ Decimal.mostLead) : ∃ x, amount raw d = .ok x := by
  obtain ⟨hnonneg, hlt⟩ := hraw
  lift raw to Nat using hnonneg
  have hraw : (raw : ℚ) ≤ 10 ^ Decimal.mostLead := by
    have hwide : Width.u128.bound ≤ 10 ^ 39 := by decide
    have hpow : 10 ^ 39 ≤ 10 ^ Decimal.mostLead := Nat.pow_le_pow_right (by decide) (by decide)
    exact_mod_cast (Nat.le_of_lt (Int.ofNat_lt.mp hlt)).trans (hwide.trans hpow)
  have hquotient : (raw : ℚ) / 10 ^ d ≤ raw :=
    div_le_self (Nat.cast_nonneg raw) (one_le_pow₀ (by norm_num))
  obtain ⟨x, _, _, hx⟩ := (amount_answers raw hd).ok (lt_overflowFrom (hquotient.trans hraw))
  exact ⟨x, hx⟩

theorem exists_price {p q c : Int} (hp : (Field.word .u64 p).Fits) (hq : (Field.word .u64 q).Fits)
    (hc : (Field.word .u64 c).Fits) (hne : c ≠ 0) : ∃ r, price p q c = .ok r := by
  obtain ⟨hp0, hp⟩ := hp
  obtain ⟨hq0, hq⟩ := hq
  obtain ⟨hc0, hc⟩ := hc
  lift p to Nat using hp0
  lift q to Nat using hq0
  lift c to Nat using hc0
  obtain ⟨hproduct, hlot⟩ := words_le (Int.ofNat_lt.mp hp) (Int.ofNat_lt.mp hq) (Int.ofNat_lt.mp hc)
  obtain ⟨_, r, _, _, _, hr⟩ := price_answers (Int.natCast_ne_zero.mp hne) hproduct hlot
  exact ⟨r, hr⟩

theorem amountOf_sound (h : Small decimals) (mint : Key) {raw : Int}
    (hraw : (Field.word .u128 raw).Fits) :
    Sound (amountOf decimals mint raw) (decimals.get? mint ≠ none) := by
  rw [amountOf]
  cases hd : decimals.get? mint with
  | none => exact .inr ⟨fun hn => hn rfl, _, rfl, nofun⟩
  | some d =>
    obtain ⟨n, rfl, hn⟩ := h mint d hd
    obtain ⟨x, hx⟩ := exists_amount hraw (Nat.le_trans (Nat.le_of_lt hn) (by decide))
    exact .inl ⟨nofun, x, mapError_eq_ok_iff.mpr hx⟩

theorem settledOf_sound (h : Small decimals) {as : List (MintAmount Int)}
    (has : ∀ a ∈ as, (Field.word .u128 a.amount).Fits) :
    Sound (settledOf decimals as) (∀ a ∈ as, decimals.get? a.mint ≠ none) := by
  induction as with
  | nil => exact .inl ⟨nofun, _, rfl⟩
  | cons a as ih =>
    obtain ⟨ha, hrest⟩ := List.forall_mem_cons.mp has
    have hcons : Sound (settledOf decimals (a :: as)) (_ ∧ _ ∧ True) :=
      (amountOf_sound h a.mint ha).bind fun x =>
        (ih hrest).bind fun rest => Sound.pure (⟨a.mint, x⟩ :: rest)
    refine hcons.congr ?_
    simp only [List.mem_cons, forall_eq_or_imp, and_true]

theorem price_sound {limitPrice : Int} (hprice : (Field.word .u64 limitPrice).Fits) {m : Market}
    (hm : m.Counted) :
    Sound (price limitPrice m.pcLotSize m.coinLotSize) (m.coinLotSize ≠ 0) := by
  by_cases h : m.coinLotSize = 0
  · exact .inr ⟨fun hn => hn h, .format .zeroCoinLot, if_pos h, nofun⟩
  · exact .inl ⟨h, exists_price hprice hm.pcLotSize hm.coinLotSize h⟩

/-- An order is restated exactly if its market has lots and the decimals of all that it moved are
known. -/
theorem ofPaired_sound (h : Small decimals) {p : PairedOrder} (hp : p.Counted) {m : Market}
    (hm : m.Counted) :
    Sound (ofPaired p m decimals)
      (m.coinLotSize ≠ 0 ∧ ∀ k ∈ p.moved m, decimals.get? k ≠ none) := by
  have hsteps : Sound (ofPaired p m decimals) (_ ∧ _ ∧ _ ∧ True) :=
    (settledOf_sound h hp.settledAmounts).bind fun settled =>
      (price_sound hp.order.limitPrice hm).bind fun limitPrice =>
        (amountOf_sound h (m.sourceMint p.order.terms.side) hp.order.transferred).bind
          fun transferred => Sound.pure _
  refine hsteps.congr ?_
  simp only [PairedOrder.moved, List.mem_cons, List.mem_map, forall_eq_or_imp,
    forall_exists_index, and_imp, forall_apply_eq_imp_iff₂, and_true]
  exact ⟨fun h => ⟨h.2.1, h.2.2, h.1⟩, fun h => ⟨h.2.2, h.1, h.2.1⟩⟩

theorem amountOf_congr {t t' : Table Key Int} {mint : Key} (h : t.get? mint = t'.get? mint)
    (raw : Int) : amountOf t mint raw = amountOf t' mint raw := by
  rw [amountOf, amountOf, h]

theorem settledOf_congr {t t' : Table Key Int} {as : List (MintAmount Int)}
    (h : ∀ a ∈ as, t.get? a.mint = t'.get? a.mint) : settledOf t as = settledOf t' as := by
  induction as with
  | nil => rfl
  | cons a as ih =>
    have hrest := ih fun b hb => h b (List.mem_cons_of_mem a hb)
    rw [settledOf, settledOf, amountOf_congr (h a List.mem_cons_self), hrest]

theorem ofPaired_congr {t t' : Table Key Int} {p : PairedOrder} {m : Market}
    (h : ∀ k ∈ p.moved m, t.get? k = t'.get? k) : ofPaired p m t = ofPaired p m t' := by
  have hsettled : settledOf t p.settledAmounts = settledOf t' p.settledAmounts :=
    settledOf_congr fun a ha => h a.mint (List.mem_cons_of_mem _ (List.mem_map_of_mem ha))
  have hsource : t.get? (m.sourceMint p.order.terms.side) =
      t'.get? (m.sourceMint p.order.terms.side) := h _ List.mem_cons_self
  simp only [PairedOrder.settledAmounts] at hsettled
  simp only [ofPaired, hsettled, amountOf_congr hsource]

end Order

namespace Node

variable (n : Node)

def market? (k : Key) : Option Market :=
  (n.account k).bind fun data => (Market.decode data k).toOption

def decimals? (k : Key) : Option Int :=
  (n.account k).bind fun data => (Mint.decodeDecimals data).toOption

def restate (p : PairedOrder) : Option Order :=
  (n.market? p.order.market).bind fun m =>
    (Order.ofPaired p m (Table.tabulate n.decimals? (p.moved m))).toOption

variable {n : Node} {k : Key}

theorem decimals?_small {d : Int} (h : n.decimals? k = some d) : ∃ m : Nat, d = m ∧ m < 256 := by
  obtain ⟨data, _, hd⟩ := Option.bind_eq_some_iff.mp h
  exact Mint.decodeDecimals_lt (toOption_eq_some_iff.mp hd)

theorem small_tabulate (n : Node) (ks : List Key) :
    Order.Small (Table.tabulate n.decimals? ks) := by
  intro k d h
  rw [Table.get?_tabulate] at h
  by_cases hk : k ∈ ks
  · rw [if_pos hk] at h
    exact decimals?_small h
  · rw [if_neg hk] at h
    cases h

theorem counted_of_market? {m : Market} (h : n.market? k = some m) : m.Counted := by
  obtain ⟨data, _, hd⟩ := Option.bind_eq_some_iff.mp h
  exact Market.counted_of_decode (toOption_eq_some_iff.mp hd)

end Node

namespace Client

variable (c : Client) {α : Type} (decode : Bytes → Except FormatFault α) (k : Key)

theorem toOption_read : (c.read decode k).value.toOption =
    (c.node.account k).bind fun data => (decode data).toOption := by
  rw [read, Trace.value_bind]
  cases h : c.node.account k with
  | none => simp [account, Trace.ask, h, Except.toOption]
  | some data =>
    cases hd : decode data <;>
      simp [account, Trace.ask, h, hd, Except.toOption, Except.mapError]

theorem warnings_read : (c.read decode k).warnings = [] := by
  rw [read, Trace.warnings_bind]
  cases (c.account k).value <;> rfl

end Client

namespace Reconstructor

section Resolving

variable {α : Type} {read : Key → Trace (Except ReadFault α)} {report : Key → ReadFault → Warning}

theorem value_resolve (ks : List Key) :
    (resolve read report ks).value = Table.tabulate (fun k => (read k).value.toOption) ks := by
  induction ks with
  | nil => rfl
  | cons k ks ih =>
    rw [resolve, Trace.value_bind, Table.tabulate_cons, ← ih]
    cases (read k).value with
    | ok a => rfl
    | error f => rfl

theorem notMem_warnings_resolve {w : Warning} (hread : ∀ k, w ∉ (read k).warnings)
    (hreport : ∀ k f, report k f ≠ w) (ks : List Key) :
    w ∉ (resolve read report ks).warnings := by
  induction ks with
  | nil => exact List.not_mem_nil
  | cons k ks ih =>
    rw [resolve, Trace.warnings_bind, List.mem_append, not_or]
    refine ⟨hread k, ?_⟩
    cases (read k).value with
    | ok a => simpa using ih
    | error f => simpa [Trace.warn, ih] using (hreport k f).symm

end Resolving

theorem mem_marketsOf {p : PairedOrder} {paired : List PairedOrder} (hp : p ∈ paired) :
    p.order.market ∈ marketsOf paired :=
  List.mem_eraseDups.mpr (List.mem_map_of_mem hp)

theorem mem_mintsOfAll {markets : Table Key Market} {p : PairedOrder} {paired : List PairedOrder}
    {m : Market} {k : Key} (hp : p ∈ paired) (hm : markets.get? p.order.market = some m)
    (hk : k ∈ p.moved m) : k ∈ mintsOfAll markets paired := by
  refine List.mem_eraseDups.mpr (List.mem_flatMap.mpr ⟨p, hp, ?_⟩)
  rw [mintsOf, hm]
  exact hk

def knownMarkets (n : Node) (paired : List PairedOrder) : Table Key Market :=
  Table.tabulate n.market? (marketsOf paired)

def knownDecimals (n : Node) (paired : List PairedOrder) : Table Key Int :=
  Table.tabulate n.decimals? (mintsOfAll (knownMarkets n paired) paired)

theorem get?_knownMarkets (n : Node) {p : PairedOrder} {paired : List PairedOrder}
    (hp : p ∈ paired) : (knownMarkets n paired).get? p.order.market = n.market? p.order.market := by
  rw [knownMarkets, Table.get?_tabulate, if_pos (mem_marketsOf hp)]

/-- What is known of all markets and mints says of one order what the node says of it alone. -/
theorem restated_known (n : Node) {p : PairedOrder} {paired : List PairedOrder}
    (hp : p ∈ paired) :
    (restated (knownMarkets n paired) (knownDecimals n paired) p).1 = n.restate p := by
  have hget := get?_knownMarkets n hp
  rw [restated, Node.restate, hget]
  cases hm : n.market? p.order.market with
  | none => rfl
  | some m =>
    -- Every mint that the order moved was asked for, so the table for all orders has what a table
    -- for this order alone would have.
    have hdecimals : ∀ k ∈ p.moved m,
        (knownDecimals n paired).get? k = (Table.tabulate n.decimals? (p.moved m)).get? k := by
      intro k hk
      have hall : k ∈ mintsOfAll (knownMarkets n paired) paired :=
        mem_mintsOfAll hp (hget.trans hm) hk
      rw [knownDecimals, Table.get?_tabulate, Table.get?_tabulate, if_pos hall, if_pos hk]
    rw [Option.bind_some, ← Order.ofPaired_congr hdecimals]
    cases h : Order.ofPaired p m (knownDecimals n paired) with
    | ok o => simp [h, Except.toOption]
    | error f => simp [h, Except.toOption]

theorem decimalFault_notMem_restated (n : Node) {p : PairedOrder} {paired : List PairedOrder}
    (hp : p ∈ paired) (hcounted : p.Counted) (signature : Text) (g : Decimal.Fault) :
    Warning.orderSkipped signature (.decimal g) ∉
      (restated (knownMarkets n paired) (knownDecimals n paired) p).2 := by
  rw [restated, get?_knownMarkets n hp]
  cases hm : n.market? p.order.market with
  | none => exact List.not_mem_nil
  | some m =>
    obtain ⟨_, o, ho⟩ | ⟨_, f, hf, hfault⟩ := Order.ofPaired_sound
      (Node.small_tabulate n (mintsOfAll (knownMarkets n paired) paired)) hcounted
      (Node.counted_of_market? hm)
    · simp only [knownDecimals, ho, List.not_mem_nil, not_false_eq_true]
    · simp only [knownDecimals, hf, List.mem_singleton, Warning.orderSkipped.injEq, not_and]
      exact fun _ hg => hfault g hg.symm

variable (r : Reconstructor) (pool : TrackedPool) (txs : List Transaction) (limit : Int)

def recent : List PairedOrder := Pairing.selectRecent (Pairing.pair (r.events pool txs)) limit

theorem counted_of_mem_recent {p : PairedOrder} (hp : p ∈ r.recent pool txs limit) :
    p.Counted := by
  refine Pairing.counted_of_mem_pair (fun e he => ?_)
    ((Ranking.perm_newestFirst _ _).mem_iff.mp (List.mem_of_mem_take hp))
  obtain ⟨tx, _, hmem⟩ := List.mem_flatMap.mp he
  exact Transaction.counted_of_mem_events hmem

theorem value_resolve_markets (paired : List PairedOrder) :
    (resolve r.client.readMarket .marketSkipped (marketsOf paired)).value =
      knownMarkets r.client.node paired := by
  rw [value_resolve, knownMarkets]
  exact congrArg (Table.tabulate · _) (funext fun k => r.client.toOption_read _ k)

theorem value_resolve_decimals (paired : List PairedOrder) :
    (resolve r.client.readDecimals .decimalsUnknown
        (mintsOfAll (knownMarkets r.client.node paired) paired)).value =
      knownDecimals r.client.node paired := by
  rw [value_resolve, knownDecimals]
  exact congrArg (Table.tabulate · _) (funext fun k => r.client.toOption_read _ k)

theorem value_orders : (r.orders pool txs limit).value =
    (r.recent pool txs limit).filterMap r.client.node.restate := by
  simp only [orders, Trace.value_bind, Trace.value_pure, value_resolve_markets,
    value_resolve_decimals, List.filterMap_map]
  exact List.filterMap_congr fun p hp => restated_known r.client.node hp

theorem orderSkipped_notMem_eventWarnings (signature : Text) (f : RestateFault) :
    Warning.orderSkipped signature f ∉ r.eventWarnings pool txs := by
  intro h
  obtain ⟨tx, _, htx⟩ := List.mem_flatMap.mp h
  obtain ⟨outcome, hmem, hw⟩ := List.mem_flatMap.mp htx
  obtain ⟨⟨c, place⟩, _, rfl⟩ := List.mem_map.mp hmem
  simp only [Transaction.eventAt] at hw
  split at hw
  · simp at hw
  · split at hw
    · simp at hw
    · split at hw
      · simp at hw
      · rename_i event _
        cases event <;> simp_all [PoolEvent.warningsOf]

theorem decimalFault_notMem_warnings (signature : Text) (g : Decimal.Fault) :
    Warning.orderSkipped signature (.decimal g) ∉ (r.orders pool txs limit).warnings := by
  have hmarkets (ks : List Key) : Warning.orderSkipped signature (.decimal g) ∉
      (resolve r.client.readMarket .marketSkipped ks).warnings := by
    apply notMem_warnings_resolve
    · intro k
      simp [Client.readMarket, Client.warnings_read]
    · intro _ _ h
      cases h
  have hdecimals (ks : List Key) : Warning.orderSkipped signature (.decimal g) ∉
      (resolve r.client.readDecimals .decimalsUnknown ks).warnings := by
    apply notMem_warnings_resolve
    · intro k
      simp [Client.readDecimals, Client.warnings_read]
    · intro _ _ h
      cases h
  simp only [orders, Trace.warnings_bind, Trace.warnings_pure, value_resolve_markets,
    value_resolve_decimals, Trace.warn, List.mem_append, List.not_mem_nil, or_false, not_or,
    List.flatMap_map, List.mem_flatMap, not_exists, not_and]
  refine ⟨r.orderSkipped_notMem_eventWarnings pool txs signature _, hmarkets _, hdecimals _, ?_⟩
  exact fun p hp => decimalFault_notMem_restated r.client.node hp
    (r.counted_of_mem_recent pool txs limit hp) signature g

end Reconstructor

end SignalPool
