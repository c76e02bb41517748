import Mathlib.Data.List.Forall2
import SignalPool.Proofs.Grouping
import SignalPool.Proofs.Places

namespace SignalPool

/-- The places of an order and of the settlement attributed to it. -/
structure Attribution where
  order : Nat
  settle : Option Nat
  deriving DecidableEq

namespace Attribution

inductive Reads (events : List PoolEvent) : Attribution → PairedOrder → Prop
  | pending {i : Nat} {o : OrderEvent} (ho : events[i]? = some (.order o)) :
      Reads events ⟨i, none⟩ ⟨o, none⟩
  | settled {i j : Nat} {o : OrderEvent} {s : SettleEvent}
      (ho : events[i]? = some (.order o)) (hs : events[j]? = some (.settle s)) :
      Reads events ⟨i, some j⟩ ⟨o, some s⟩

end Attribution

namespace Pairing

variable (events : List PoolEvent) (account : Key)

def attributionsOf : List Attribution :=
  (orderPlaces events account).mapIdx fun k i => ⟨i, (settlePlaces events account)[k]?⟩

def attributions : List Attribution :=
  (accounts events).flatMap fun account => (attributionsOf events account).reverse

def groupOf (ts : List Attribution) : List Attribution :=
  ts.filter fun t => (events[t.order]?).map PoolEvent.openOrders = some account

/-- The orders of each account are settled first in, first out. -/
structure Fifo (ts : List Attribution) : Prop where
  orders_once : (ts.map Attribution.order).Nodup
  mem_orders (i : Nat) : i ∈ ts.map Attribution.order ↔ ∃ o, events[i]? = some (.order o)
  grouped : ts = (accounts events).flatMap fun account => groupOf events account ts
  newest_first (account : Key) :
    ((groupOf events account ts).map Attribution.order).Pairwise (· < ·)
  in_turn (account : Key) (k : Nat) : (groupOf events account ts).reverse[k]? =
    (orderPlaces events account)[k]?.map fun i => ⟨i, (settlePlaces events account)[k]?⟩
  settles_once : (ts.filterMap Attribution.settle).Nodup
  settles_after_first {t : Attribution} {j : Nat} (ht : t ∈ ts) (hj : t.settle = some j) :
    ∃ account, t.order ∈ orderPlaces events account ∧ j ∈ settlePlaces events account
  settled_count (account : Key) : (groupOf events account ts).countP (·.settle.isSome) =
    min (orderPlaces events account).length (settlePlaces events account).length

variable {events account}

theorem pair_eq_flatMap :
    pair events =
      (accounts events).flatMap fun account => (ofAccount (history events account)).reverse := rfl

theorem reads_assign {places queue : List Nat} {os : List OrderEvent} {ss : List SettleEvent}
    (ho : places.map (events[·]?) = os.map (some ∘ PoolEvent.order))
    (hs : queue.map (events[·]?) = ss.map (some ∘ PoolEvent.settle)) :
    List.Forall₂ (Attribution.Reads events) (places.mapIdx fun k i => ⟨i, queue[k]?⟩)
      (assign os ss) := by
  induction places generalizing queue os ss with
  | nil =>
    have hnil : os = [] := List.map_eq_nil_iff.mp ho.symm
    subst hnil
    exact List.Forall₂.nil
  | cons i places ih =>
    obtain ⟨o, os, rfl, hi, hos⟩ := List.map_eq_cons_iff.mp ho.symm
    rw [List.mapIdx_cons]
    cases queue with
    | nil =>
      have hnil : ss = [] := List.map_eq_nil_iff.mp hs.symm
      subst hnil
      have hrest := ih hos.symm hs
      exact List.Forall₂.cons (.pending hi.symm) hrest
    | cons j queue =>
      obtain ⟨s, ss, rfl, hj, hss⟩ := List.map_eq_cons_iff.mp hs.symm
      have hrest := ih hos.symm hss.symm
      exact List.Forall₂.cons (.settled hi.symm hj.symm) hrest

theorem reads_pair (events : List PoolEvent) :
    List.Forall₂ (Attribution.Reads events) (attributions events) (pair events) := by
  have hgroup (account : Key) : List.Forall₂ (Attribution.Reads events)
      (attributionsOf events account).reverse (ofAccount (history events account)).reverse :=
    List.forall₂_reverse_iff.mpr (reads_assign map_orderPlaces map_settlePlaces)
  have hkeys : List.Forall₂ (· = ·) (accounts events) (accounts events) := List.forall₂_refl _
  rw [pair_eq_flatMap]
  exact List.rel_flatMap hkeys fun a b hab => hab ▸ hgroup a

theorem exists_attribution_of_getElem? {n : Nat} {p : PairedOrder}
    (hp : (pair events)[n]? = some p) :
    ∃ t, (attributions events)[n]? = some t ∧ t.Reads events p := by
  obtain ⟨hn, rfl⟩ := List.getElem?_eq_some_iff.mp hp
  have hr := reads_pair events
  have hn' : n < (attributions events).length := hr.length_eq ▸ hn
  exact ⟨_, List.getElem?_eq_getElem hn', hr.get hn' hn⟩

theorem mem_accounts_of_mem_orderPlaces {i : Nat} (h : i ∈ orderPlaces events account) :
    account ∈ accounts events := by
  obtain ⟨o, ho, ha⟩ := mem_orderPlaces.mp h
  exact mem_accounts.mpr ⟨_, List.mem_of_getElem? ho, ha⟩

theorem orderPlaces_disjoint {a b : Key} {i : Nat} (ha : i ∈ orderPlaces events a)
    (hb : i ∈ orderPlaces events b) : a = b := by
  obtain ⟨o, ho, rfl⟩ := mem_orderPlaces.mp ha
  obtain ⟨o', ho', rfl⟩ := mem_orderPlaces.mp hb
  have he : some (PoolEvent.order o) = some (.order o') := ho.symm.trans ho'
  cases he
  rfl

theorem settlePlaces_disjoint {a b : Key} {j : Nat} (ha : j ∈ settlePlaces events a)
    (hb : j ∈ settlePlaces events b) : a = b := by
  obtain ⟨⟨s, hs, rfl⟩, _⟩ := mem_settlePlaces.mp ha
  obtain ⟨⟨s', hs', rfl⟩, _⟩ := mem_settlePlaces.mp hb
  have he : some (PoolEvent.settle s) = some (.settle s') := hs.symm.trans hs'
  cases he
  rfl

theorem map_order_attributionsOf :
    (attributionsOf events account).map Attribution.order = orderPlaces events account := by
  apply List.ext_getElem?
  intro k
  simp [attributionsOf, Function.comp_def]

theorem filterMap_settle_mapIdx (places queue : List Nat) :
    (places.mapIdx fun k i => (⟨i, queue[k]?⟩ : Attribution)).filterMap Attribution.settle =
      queue.take places.length := by
  induction places generalizing queue with
  | nil => rfl
  | cons i places ih =>
    rw [List.mapIdx_cons, List.filterMap_cons]
    cases queue with
    | nil => simpa using ih []
    | cons j queue => simpa using ih queue

theorem filterMap_settle_attributionsOf :
    (attributionsOf events account).filterMap Attribution.settle =
      (settlePlaces events account).take (orderPlaces events account).length :=
  filterMap_settle_mapIdx _ _

theorem exists_turn_of_mem_attributions {t : Attribution} (ht : t ∈ attributions events) :
    ∃ (account : Key) (k : Nat), (orderPlaces events account)[k]? = some t.order ∧
      t.settle = (settlePlaces events account)[k]? := by
  obtain ⟨account, _, hta⟩ := List.mem_flatMap.mp ht
  obtain ⟨k, hk⟩ := List.mem_iff_getElem?.mp (List.mem_reverse.mp hta)
  rw [attributionsOf, List.getElem?_mapIdx] at hk
  obtain ⟨i, hi, rfl⟩ := Option.map_eq_some_iff.mp hk
  exact ⟨account, k, hi, rfl⟩

theorem map_order_attributions (events : List PoolEvent) :
    (attributions events).map Attribution.order =
      (accounts events).flatMap fun account => (orderPlaces events account).reverse := by
  rw [attributions, List.map_flatMap]
  apply List.flatMap_congr
  intro account _
  rw [List.map_reverse, map_order_attributionsOf]

theorem filterMap_settle_attributions (events : List PoolEvent) :
    (attributions events).filterMap Attribution.settle =
      (accounts events).flatMap fun account =>
        ((settlePlaces events account).take (orderPlaces events account).length).reverse := by
  rw [attributions, List.filterMap_flatMap]
  apply List.flatMap_congr
  intro account _
  rw [List.filterMap_reverse, filterMap_settle_attributionsOf]

theorem order_mem_of_mem_attributionsOf {t : Attribution} (ht : t ∈ attributionsOf events account) :
    t.order ∈ orderPlaces events account :=
  map_order_attributionsOf ▸ List.mem_map_of_mem ht

theorem groupOf_attributions (events : List PoolEvent) (account : Key) :
    groupOf events account (attributions events) = (attributionsOf events account).reverse := by
  have hplace {a : Key} {t : Attribution} (ht : t ∈ (attributionsOf events a).reverse) :
      t.order ∈ orderPlaces events a := order_mem_of_mem_attributionsOf (List.mem_reverse.mp ht)
  have hgroup : ∀ a, ∀ t ∈ (attributionsOf events a).reverse, ∀ b,
      decide ((events[t.order]?).map PoolEvent.openOrders = some b) = decide (a = b) := by
    intro a t ht b
    obtain ⟨o, ho, rfl⟩ := mem_orderPlaces.mp (hplace ht)
    simp [ho, PoolEvent.openOrders]
  exact Grouping.filter_flatMap_own_group hgroup (nodup_accounts events)
    fun t ht => mem_accounts_of_mem_orderPlaces (hplace ht)

theorem fifo_attributions (events : List PoolEvent) : Fifo events (attributions events) where
  orders_once := by
    rw [map_order_attributions]
    refine Grouping.nodup_flatMap_group (fun a => ?_) (fun a b i ha hb => ?_)
      (nodup_accounts events)
    · exact (List.pairwise_reverse.mpr pairwise_orderPlaces).imp Nat.ne_of_lt
    · exact orderPlaces_disjoint (List.mem_reverse.mp ha) (List.mem_reverse.mp hb)
  mem_orders i := by
    rw [map_order_attributions, List.mem_flatMap]
    constructor
    · rintro ⟨a, _, hi⟩
      obtain ⟨o, ho, _⟩ := mem_orderPlaces.mp (List.mem_reverse.mp hi)
      exact ⟨o, ho⟩
    · rintro ⟨o, ho⟩
      have hi : i ∈ orderPlaces events o.openOrders := mem_orderPlaces.mpr ⟨o, ho, rfl⟩
      exact ⟨_, mem_accounts_of_mem_orderPlaces hi, List.mem_reverse.mpr hi⟩
  grouped := by
    have hgroup : (fun account => groupOf events account (attributions events)) =
        fun account => (attributionsOf events account).reverse := by
      funext account
      exact groupOf_attributions events account
    rw [hgroup]
    rfl
  newest_first account := by
    rw [groupOf_attributions, List.map_reverse, map_order_attributionsOf]
    exact List.pairwise_reverse.mpr pairwise_orderPlaces
  in_turn account k := by
    rw [groupOf_attributions, List.reverse_reverse, attributionsOf, List.getElem?_mapIdx]
  settles_once := by
    rw [filterMap_settle_attributions]
    refine Grouping.nodup_flatMap_group (fun a => ?_) (fun a b j ha hb => ?_)
      (nodup_accounts events)
    · exact (List.pairwise_reverse.mpr pairwise_settlePlaces.take).imp Nat.ne_of_lt
    · exact settlePlaces_disjoint (List.mem_of_mem_take (List.mem_reverse.mp ha))
        (List.mem_of_mem_take (List.mem_reverse.mp hb))
  settles_after_first {t j} ht hj := by
    obtain ⟨account, k, hi, hk⟩ := exists_turn_of_mem_attributions ht
    exact ⟨account, List.mem_of_getElem? hi, List.mem_of_getElem? (hk.symm.trans hj)⟩
  settled_count account := by
    have hcount : (attributionsOf events account).countP (·.settle.isSome) =
        ((attributionsOf events account).filterMap Attribution.settle).length :=
      (List.length_filterMap_eq_countP ..).symm
    rw [groupOf_attributions, List.countP_reverse, hcount, filterMap_settle_attributionsOf,
      List.length_take]

theorem exists_settle_of_attributed {j : Nat}
    (hj : j ∈ (attributions events).filterMap Attribution.settle) :
    ∃ s, events[j]? = some (.settle s) := by
  obtain ⟨t, ht, htj⟩ := List.mem_filterMap.mp hj
  obtain ⟨_, _, hplace⟩ := (fifo_attributions events).settles_after_first ht htj
  obtain ⟨⟨s, hs, _⟩, _⟩ := mem_settlePlaces.mp hplace
  exact ⟨s, hs⟩

/-- Pairing gives one paired order for each order of the list. Accounts follow each other as they
first come, and the orders of each are settled first in, first out. -/
theorem pair_fifo (events : List PoolEvent) :
    List.Forall₂ (Attribution.Reads events) (attributions events) (pair events) ∧
      Fifo events (attributions events) ∧
      (accounts events).Pairwise fun a b => firstPlace events a < firstPlace events b :=
  ⟨reads_pair events, fifo_attributions events, pairwise_accounts events⟩

end Pairing

end SignalPool
