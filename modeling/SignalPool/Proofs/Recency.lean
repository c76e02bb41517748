import SignalPool.Proofs.Grouping

namespace SignalPool

namespace Ranking

variable {α κ : Type} [DecidableEq κ]

/-- Each of the first `n` elements stands in a relation to all elements after it. -/
def Leads (R : α → α → Prop) (n : Nat) (xs : List α) : Prop :=
  ∀ i j x y, i < j → i < n → xs[i]? = some x → xs[j]? = some y → R x y

theorem leads_cons {R : α → α → Prop} {n : Nat} {x : α} {xs : List α} :
    Leads R (n + 1) (x :: xs) ↔ (∀ y ∈ xs, R x y) ∧ Leads R n xs := by
  constructor
  · intro h
    refine ⟨fun y hy => ?_, fun i j a b hij hi ha hb => ?_⟩
    · obtain ⟨j, hj⟩ := List.mem_iff_getElem?.mp hy
      exact h 0 (j + 1) x y (Nat.succ_pos j) (Nat.succ_pos n) rfl hj
    · exact h (i + 1) (j + 1) a b (Nat.succ_lt_succ hij) (Nat.succ_lt_succ hi) ha hb
  · rintro ⟨hx, h⟩ i j a b hij hi ha hb
    obtain ⟨j, rfl⟩ : ∃ k, j = k + 1 := ⟨j - 1, by omega⟩
    cases i with
    | zero =>
      cases ha
      exact hx b (List.mem_of_getElem? hb)
    | succ i => exact h i j a b (Nat.lt_of_succ_lt_succ hij) (Nat.lt_of_succ_lt_succ hi) ha hb

theorem mem_of_filter_key {key : α → κ} {xs ys : List α}
    (h : ∀ k, xs.filter (key · = k) = ys.filter (key · = k)) {x : α} (hx : x ∈ xs) : x ∈ ys := by
  have hm : x ∈ xs.filter (key · = key x) := List.mem_filter.mpr ⟨hx, by simp⟩
  rw [h] at hm
  exact (List.mem_filter.mp hm).1

/-- Two lists have the elements of each key in the same order, and the first is in order as a
whole. They agree up to a cut exactly if the second is in order up to it. -/
theorem take_eq_take_iff {key : α → κ} {R : α → α → Prop} {xs ys : List α}
    (hkey : ∀ k, xs.filter (key · = k) = ys.filter (key · = k)) (hxs : xs.Pairwise R)
    (hanti : ∀ x ∈ ys, ∀ y ∈ ys, R x y → R y x → key x = key y) (n : Nat) :
    xs.take n = ys.take n ↔ Leads R n ys := by
  induction n generalizing xs ys with
  | zero => simp [Leads]
  | succ n ih =>
    cases ys with
    | nil =>
      have hnil : xs = [] := by
        apply List.eq_nil_iff_forall_not_mem.mpr
        intro x hx
        simpa using mem_of_filter_key hkey hx
      simp [hnil, Leads]
    | cons y ys =>
      have hy : y ∈ xs := mem_of_filter_key (fun k => (hkey k).symm) List.mem_cons_self
      cases xs with
      | nil => simp at hy
      | cons x xs =>
        obtain ⟨hx, hxs'⟩ := List.pairwise_cons.mp hxs
        have htail (he : x = y) (k : κ) : xs.filter (key · = k) = ys.filter (key · = k) := by
          have hk := hkey k
          subst he
          by_cases hxk : key x = k <;> simpa [hxk] using hk
        have hanti' : ∀ a ∈ ys, ∀ b ∈ ys, R a b → R b a → key a = key b := by
          intro a ha b hb
          exact hanti a (List.mem_cons_of_mem y ha) b (List.mem_cons_of_mem y hb)
        rw [List.take_succ_cons, List.take_succ_cons, List.cons.injEq, leads_cons]
        constructor
        · rintro ⟨rfl, ht⟩
          refine ⟨fun z hz => hx z ?_, (ih (htail rfl) hxs' hanti').mp ht⟩
          exact mem_of_filter_key (fun k => (htail rfl k).symm) hz
        · rintro ⟨hlead, ht⟩
          have he : x = y := by
            by_contra hne
            have hxy : R x y := hx y ((List.mem_cons.mp hy).resolve_left (Ne.symm hne))
            have hxm : x ∈ ys :=
              (List.mem_cons.mp (mem_of_filter_key hkey List.mem_cons_self)).resolve_left hne
            have hyx : R y x := hlead x hxm
            have hk : key x = key y :=
              hanti x (List.mem_cons_of_mem y hxm) y List.mem_cons_self hxy hyx
            have hheads := hkey (key y)
            simp only [List.filter_cons, hk, decide_true, ↓reduceIte, List.cons.injEq] at hheads
            exact hne hheads.1
          exact ⟨he, (ih (htail he) hxs' hanti').mpr ht⟩

end Ranking

namespace Pairing

variable {events : List PoolEvent}

def orders (events : List PoolEvent) : List OrderEvent := events.filterMap PoolEvent.order?

theorem orders_filter (account : Key) :
    orders (events.filter (·.openOrders = account)) =
      (orders events).filter (·.openOrders = account) := by
  rw [orders, orders, List.filterMap_filter, List.filter_filterMap]
  apply List.filterMap_congr
  intro e _
  cases e with
  | order o =>
    by_cases h : o.openOrders = account <;>
      simp [PoolEvent.openOrders, Option.filter_some, h]
  | settle s => simp

theorem mem_accounts_of_mem_orders {o : OrderEvent} (ho : o ∈ orders events) :
    o.openOrders ∈ accounts events := by
  obtain ⟨e, he, hoe⟩ := List.mem_filterMap.mp ho
  cases e with
  | order o' =>
    cases hoe
    exact mem_accounts.mpr ⟨_, he, rfl⟩
  | settle s => cases hoe

theorem map_order_pair (events : List PoolEvent) :
    (pair events).map PairedOrder.order =
      (accounts events).flatMap fun account =>
        (orders events).filter (·.openOrders = account) := by
  rw [pair, List.map_flatMap]
  apply List.flatMap_congr
  intro account _
  rw [List.map_reverse, ofAccount, map_order_assign, List.filterMap_reverse, List.reverse_reverse]
  exact orders_filter account

theorem filter_openOrders_pair (events : List PoolEvent) (account : Key) :
    ((pair events).map PairedOrder.order).filter (·.openOrders = account) =
      (orders events).filter (·.openOrders = account) := by
  have hgroup : ∀ a, ∀ o ∈ (orders events).filter (·.openOrders = a), ∀ b,
      decide (o.openOrders = b) = decide (a = b) := by
    intro a o ho b
    have ha : o.openOrders = a := of_decide_eq_true (List.mem_filter.mp ho).2
    rw [ha]
  rw [map_order_pair]
  refine Grouping.filter_flatMap_own_group hgroup (nodup_accounts events) fun o ho => ?_
  obtain ⟨hm, he⟩ := List.mem_filter.mp ho
  have hoa : o.openOrders = account := of_decide_eq_true he
  exact hoa ▸ mem_accounts_of_mem_orders hm

theorem pairwise_firstPlace_pair (events : List PoolEvent) :
    ((pair events).map PairedOrder.order).Pairwise fun o o' =>
      firstPlace events o.openOrders ≤ firstPlace events o'.openOrders := by
  have hof {a : Key} {o : OrderEvent} (ho : o ∈ (orders events).filter (·.openOrders = a)) :
      o.openOrders = a := of_decide_eq_true (List.mem_filter.mp ho).2
  rw [map_order_pair, List.pairwise_flatMap]
  constructor
  · intro a _
    apply List.pairwise_of_forall_mem_list
    intro o ho o' ho'
    have hoo : o.openOrders = o'.openOrders := (hof ho).trans (hof ho').symm
    exact Nat.le_of_eq (congrArg (firstPlace events) hoo)
  · refine (pairwise_accounts events).imp fun {a b} hab o ho o' ho' => ?_
    rw [hof ho, hof ho']
    exact Nat.le_of_lt hab

theorem orders_pairwise_slot (h : events.Pairwise fun x y => y.slot ≤ x.slot) :
    (orders events).Pairwise fun o o' => o'.slot ≤ o.slot := by
  refine List.Pairwise.filterMap PoolEvent.order? ?_ h
  intro e e' hle o ho o' ho'
  cases e with
  | settle s => cases ho
  | order p =>
    cases e' with
    | settle s => cases ho'
    | order p' =>
      cases ho
      cases ho'
      exact hle

/-- The order of a selection: falling slots, and within a slot the account that comes first. -/
def Precedes (events : List PoolEvent) (o o' : OrderEvent) : Prop :=
  o'.slot ≤ o.slot ∧
    (o.slot = o'.slot → firstPlace events o.openOrders ≤ firstPlace events o'.openOrders)

theorem pairwise_precedes (events : List PoolEvent) :
    (Ranking.newestFirst OrderEvent.slot ((pair events).map PairedOrder.order)).Pairwise
      (Precedes events) :=
  (Ranking.pairwise_newestFirst OrderEvent.slot _).and
    (Ranking.pairwise_newestFirst_tie OrderEvent.slot (pairwise_firstPlace_pair events))

theorem filter_newestFirst_pair (events : List PoolEvent) (k : Int × Key) :
    (Ranking.newestFirst OrderEvent.slot ((pair events).map PairedOrder.order)).filter
        (fun o => (o.slot, o.openOrders) = k) =
      (orders events).filter fun o => (o.slot, o.openOrders) = k := by
  have hsplit (os : List OrderEvent) : os.filter (fun o => (o.slot, o.openOrders) = k) =
      (os.filter (·.openOrders = k.2)).filter (·.slot = k.1) := by
    rw [List.filter_filter]
    apply List.filter_congr
    intro o _
    simp [Prod.ext_iff]
  have hslot : ∀ o : OrderEvent, decide ((o.slot, o.openOrders) = k) = true → o.slot = k.1 := by
    intro o ho
    exact congrArg Prod.fst (of_decide_eq_true ho)
  rw [Ranking.filter_newestFirst OrderEvent.slot _ k.1 hslot, hsplit, hsplit,
    filter_openOrders_pair]

theorem precedes_antisymm {o o' : OrderEvent} (ho : o ∈ orders events)
    (h : Precedes events o o') (h' : Precedes events o' o) :
    (o.slot, o.openOrders) = (o'.slot, o'.openOrders) := by
  have hs : o.slot = o'.slot := Int.le_antisymm h'.1 h.1
  have hp : firstPlace events o.openOrders = firstPlace events o'.openOrders :=
    Nat.le_antisymm (h.2 hs) (h'.2 hs.symm)
  have hm : o.openOrders ∈ events.map PoolEvent.openOrders :=
    List.mem_eraseDups.mp (mem_accounts_of_mem_orders ho)
  rw [hs, (List.idxOf_inj hm).mp hp]

theorem map_order_selectRecent (paired : List PairedOrder) (limit : Int) :
    (selectRecent paired limit).map PairedOrder.order =
      (Ranking.newestFirst OrderEvent.slot (paired.map PairedOrder.order)).take limit.toNat := by
  rw [selectRecent, List.map_take, ← Ranking.map_newestFirst]

/-- The selection is made of the newest orders exactly if the account of each of them, compared with
that of an older order of its slot, has its newest event no later in the list. -/
theorem selectRecent_newest_iff (h : events.Pairwise fun x y => y.slot ≤ x.slot) (limit : Int) :
    (selectRecent (pair events) limit).map PairedOrder.order =
        (orders events).take limit.toNat ↔
      ∀ i j o o', i < j → i < limit.toNat → (orders events)[i]? = some o →
        (orders events)[j]? = some o' → o.slot = o'.slot →
        firstPlace events o.openOrders ≤ firstPlace events o'.openOrders := by
  rw [map_order_selectRecent, Ranking.take_eq_take_iff (filter_newestFirst_pair events)
    (pairwise_precedes events) fun o ho o' _ => precedes_antisymm ho]
  constructor
  · intro hlead i j o o' hij hi ho ho'
    exact (hlead i j o o' hij hi ho ho').2
  · intro hties i j o o' hij hi ho ho'
    refine ⟨?_, hties i j o o' hij hi ho ho'⟩
    obtain ⟨hi', rfl⟩ := List.getElem?_eq_some_iff.mp ho
    obtain ⟨hj', rfl⟩ := List.getElem?_eq_some_iff.mp ho'
    exact List.pairwise_iff_getElem.mp (orders_pairwise_slot h) i j hi' hj' hij

def tied : List PoolEvent :=
  [.order (plainOrder "c" 5 7), .order (plainOrder "b" 5 8), .order (plainOrder "a" 5 7)]

theorem selectRecent_newest_iff_tied :
    tied.Pairwise (fun x y => y.slot ≤ x.slot) ∧
      ((selectRecent (pair tied) 1).map PairedOrder.order = (orders tied).take 1 ↔
        ∀ i j o o', i < j → i < (1 : Int).toNat → (orders tied)[i]? = some o →
          (orders tied)[j]? = some o' → o.slot = o'.slot →
          firstPlace tied o.openOrders ≤ firstPlace tied o'.openOrders) :=
  ⟨by decide, selectRecent_newest_iff (by decide) 1⟩

/-- The oldest order is kept, and the one of the other account is dropped. -/
theorem tied_cut_keeps_older_order :
    tied.Pairwise (fun x y => y.slot ≤ x.slot) ∧
      (selectRecent (pair tied) 2).map PairedOrder.order ≠ (orders tied).take 2 ∧
      (selectRecent (pair tied) 2).map PairedOrder.order =
        [plainOrder "c" 5 7, plainOrder "a" 5 7] := by
  decide

end Pairing

end SignalPool
