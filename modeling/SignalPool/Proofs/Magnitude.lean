import SignalPool.Proofs.Attribution
import SignalPool.Proofs.Canonical
import SignalPool.Proofs.Emission
import SignalPool.Proofs.Metadata
import SignalPool.Proofs.Tables

namespace SignalPool

namespace Compiled

theorem amount_lt {c : Compiled} {keys : List Key} {tokenProgram : Key} {t : Transfer}
    (h : c.transfer? keys tokenProgram = some t) : t.amount < Width.u64.bound := by
  obtain ⟨_, _, hsize, _, hamount⟩ := transfer?_eq_some_iff.mp h
  have hlength : ((c.data.drop 1).take 8).length = Width.u64.size := by
    rw [List.length_take, List.length_drop, Width.size]
    omega
  have hlt := Bytes.littleEndian_lt ((c.data.drop 1).take 8)
  rwa [hlength, ← hamount] at hlt

end Compiled

namespace SettleEvent

/-- The amounts of a settlement are sums of machine words, which a double word holds. -/
def Counted (e : SettleEvent) : Prop := ∀ a ∈ e.amounts, (Field.word .u128 a.amount).Fits

theorem add_le {totals : Table Key Int} {a : MintAmount Int} {most more : Int}
    (htotals : ∀ e ∈ totals, 0 ≤ e.2 ∧ e.2 ≤ most) (hmost : 0 ≤ most)
    (ha : 0 ≤ a.amount ∧ a.amount ≤ more) :
    ∀ e ∈ add totals a, 0 ≤ e.2 ∧ e.2 ≤ most + more := by
  have hheld : 0 ≤ (totals.get? a.mint).getD 0 ∧ (totals.get? a.mint).getD 0 ≤ most := by
    cases hget : totals.get? a.mint with
    | none => exact ⟨Int.le_refl 0, hmost⟩
    | some held =>
      obtain ⟨e, he, rfl⟩ := Table.exists_mem_of_get? hget
      exact htotals e he
  intro e he
  obtain hmem | hsum := Table.of_mem_insert he
  · have h := htotals e hmem
    omega
  · omega

theorem foldl_add_le {amounts : List (MintAmount Int)} {totals : Table Key Int} {most more : Int}
    (htotals : ∀ e ∈ totals, 0 ≤ e.2 ∧ e.2 ≤ most) (hmost : 0 ≤ most)
    (hamounts : ∀ a ∈ amounts, 0 ≤ a.amount ∧ a.amount ≤ more) :
    ∀ e ∈ amounts.foldl add totals, 0 ≤ e.2 ∧ e.2 ≤ most + amounts.length * more := by
  induction amounts generalizing totals most with
  | nil => simpa using htotals
  | cons a amounts ih =>
    obtain ⟨ha, has⟩ := List.forall_mem_cons.mp hamounts
    have hrest := ih (add_le htotals hmost ha) (by omega) has
    have hlength : most + more + amounts.length * more = most + (a :: amounts).length * more := by
      rw [List.length_cons, Int.natCast_succ, Int.add_mul, Int.one_mul, Int.add_assoc,
        Int.add_comm more]
    rwa [hlength] at hrest

variable {tx : Transaction} {c : Compiled} {pool : TrackedPool} {tokenProgram : Key}

theorem amount_of_proceeds? {keys : List Key} {a : MintAmount Int}
    (h : proceeds? pool keys tokenProgram c = some a) :
    0 ≤ a.amount ∧ a.amount ≤ Width.u64.bound := by
  obtain ⟨t, ht, mint, _, hmint⟩ := by
    simpa only [proceeds?, Option.bind_eq_bind, Option.bind_eq_some_iff] using h
  cases hmint
  have hlt := Compiled.amount_lt ht
  constructor <;> simp only <;> omega

theorem counted_of_ofInstruction {is : Invoked Compiled} {e : SettleEvent}
    (h : ofInstruction tx c is.toList pool tokenProgram = .ok (some e)) : e.Counted := by
  obtain ⟨market, openOrders, _, _, _, rfl⟩ := ofInstruction_eq_some_iff.mp h
  intro a ha
  obtain ⟨x, hx, rfl⟩ := List.mem_map.mp ha
  have hbrought : ∀ b ∈ is.toList.filterMap (proceeds? pool tx.keys tokenProgram),
      0 ≤ b.amount ∧ b.amount ≤ Width.u64.bound := by
    intro b hb
    obtain ⟨c, _, hc⟩ := List.mem_filterMap.mp hb
    exact amount_of_proceeds? hc
  obtain ⟨hnonneg, hle⟩ :=
    foldl_add_le (List.forall_mem_nil _) (Int.le_refl 0) hbrought x hx
  have hcount : (is.toList.filterMap (proceeds? pool tx.keys tokenProgram)).length <
      Width.u64.bound := Nat.lt_of_le_of_lt (List.length_filterMap_le _ _) is.short
  have hsum := Nat.mul_lt_mul_of_pos_right hcount (by decide : 0 < Width.u64.bound)
  have hdouble : Width.u64.bound * Width.u64.bound = Width.u128.bound := by decide
  rw [hdouble] at hsum
  refine ⟨hnonneg, Int.lt_of_le_of_lt hle ?_⟩
  rw [Int.zero_add]
  exact_mod_cast hsum

end SettleEvent

namespace OrderTerms

theorem fits_of_decode {d : Bytes} {o : OrderTerms} (hhead : d.head? = some Tag.createOrder.code)
    (h : decode d = .ok o) : ∀ f ∈ o.fields, f.Fits := by
  have hencode := Instruction.encode_of_decode (Instruction.decode_of_orderTerms hhead h)
  obtain ⟨_, body, hbody, _⟩ := Instruction.encode_eq_ok_iff.mp hencode
  exact Field.exists_encodeAll_iff.mp ⟨body, hbody⟩

end OrderTerms

namespace OrderEvent

structure Counted (e : OrderEvent) : Prop where
  limitPrice : (Field.word .u64 e.terms.limitPrice).Fits
  transferred : (Field.word .u128 e.transferred).Fits

variable {tx : Transaction} {c : Compiled} {inner : List Compiled} {pool : TrackedPool}
  {tokenProgram : Key}

theorem counted_of_ofInstruction {e : OrderEvent}
    (hhead : c.data.head? = some Tag.createOrder.code)
    (h : ofInstruction tx c inner pool tokenProgram = .ok (some e)) : e.Counted := by
  obtain ⟨terms, _, _, t, hterms, _, _, hpaid, rfl⟩ := ofInstruction_eq_some_iff.mp h
  obtain ⟨x, _, hx⟩ := List.exists_of_findSome?_eq_some hpaid
  have hlt := Compiled.amount_lt hx
  have hwide : Width.u64.bound ≤ Width.u128.bound := by decide
  exact {
    limitPrice := OrderTerms.fits_of_decode hhead hterms _ (by simp [OrderTerms.fields])
    transferred := ⟨Int.natCast_nonneg t.amount, by simp only; omega⟩ }

end OrderEvent

def PoolEvent.Counted : PoolEvent → Prop
  | order e => e.Counted
  | settle e => e.Counted

namespace Transaction

variable {tx : Transaction} {pool : TrackedPool} {program tokenProgram : Key}

theorem innerOf_eq (tx : Transaction) (place : Int) :
    ∃ is : Invoked Compiled, tx.innerOf place = is.toList := by
  rw [innerOf]
  cases tx.inner.get? place with
  | none => exact ⟨⟨[], by decide⟩, rfl⟩
  | some is => exact ⟨is, rfl⟩

theorem counted_of_mem_events {e : PoolEvent} (h : e ∈ tx.events pool program tokenProgram) :
    e.Counted := by
  obtain ⟨outcome, houtcome, he⟩ := List.mem_filterMap.mp (List.mem_reverse.mp h)
  obtain ⟨⟨c, place⟩, _, rfl⟩ := List.mem_map.mp houtcome
  cases e with
  | order o =>
    obtain ⟨heffect, ho⟩ := eventAt_order he
    exact OrderEvent.counted_of_ofInstruction (effectOn?_eq_some_iff.mp heffect).2.2 ho
  | settle s =>
    obtain ⟨_, hs⟩ := eventAt_settle he
    obtain ⟨is, his⟩ := tx.innerOf_eq place
    exact SettleEvent.counted_of_ofInstruction (his ▸ hs)

end Transaction

structure PairedOrder.Counted (p : PairedOrder) : Prop where
  order : p.order.Counted
  settle : ∀ s, p.settle = some s → s.Counted

theorem Pairing.counted_of_mem_pair {events : List PoolEvent} (h : ∀ e ∈ events, e.Counted)
    {p : PairedOrder} (hp : p ∈ pair events) : p.Counted := by
  obtain ⟨n, hn⟩ := List.getElem?_of_mem hp
  obtain ⟨t, _, hreads⟩ := exists_attribution_of_getElem? hn
  cases hreads with
  | pending ho => exact ⟨h _ (List.mem_of_getElem? ho), nofun⟩
  | settled ho hs =>
    refine ⟨h _ (List.mem_of_getElem? ho), fun s heq => ?_⟩
    cases heq
    exact h _ (List.mem_of_getElem? hs)

theorem Reader.fits_of_reversedWord {data : Bytes} {place n : Nat}
    (h : reversedWord.readAt data place = .ok n) : (Field.word .u64 n).Fits := by
  obtain ⟨⟨_, c⟩, hrun, rfl⟩ := map_eq_ok_iff.mp h
  obtain ⟨bs, hchunk, heq⟩ := run_map_eq_ok.mp hrun
  obtain ⟨hlength, _⟩ := chunk_eq_ok hchunk
  have hlt : Bytes.littleEndian bs < Width.u64.bound := by
    rw [Width.bound, Width.size, ← hlength]
    exact Bytes.littleEndian_lt bs
  rw [Bytes.bigEndian_reverse] at heq
  exact ⟨Int.natCast_nonneg _, by exact_mod_cast heq ▸ hlt⟩

namespace Market

structure Counted (m : Market) : Prop where
  coinLotSize : (Field.word .u64 m.coinLotSize).Fits
  pcLotSize : (Field.word .u64 m.pcLotSize).Fits

theorem counted_of_decode {data : Bytes} {address : Key} {m : Market}
    (h : decode data address = .ok m) : m.Counted := by
  rw [decode] at h
  split at h
  · cases h
  · obtain ⟨_, _, h⟩ := bind_eq_ok_iff.mp h
    obtain ⟨_, _, h⟩ := bind_eq_ok_iff.mp h
    obtain ⟨coinLotSize, hcoin, h⟩ := bind_eq_ok_iff.mp h
    obtain ⟨_, _, h⟩ := bind_eq_ok_iff.mp h
    obtain ⟨_, _, h⟩ := bind_eq_ok_iff.mp h
    obtain ⟨pcLotSize, hpc, h⟩ := bind_eq_ok_iff.mp h
    obtain ⟨_, _, h⟩ := bind_eq_ok_iff.mp h
    obtain ⟨_, _, h⟩ := bind_eq_ok_iff.mp h
    obtain ⟨_, _, h⟩ := bind_eq_ok_iff.mp h
    obtain ⟨_, _, h⟩ := bind_eq_ok_iff.mp h
    obtain ⟨_, _, h⟩ := bind_eq_ok_iff.mp h
    cases h
    exact ⟨Reader.fits_of_reversedWord hcoin, Reader.fits_of_reversedWord hpc⟩

end Market

end SignalPool
