import SignalPool.Proofs.Attribution

namespace SignalPool.Pairing

variable {events : List PoolEvent} {account : Key}

/-- How many orders of an account are older than a place. -/
def ordersBefore (events : List PoolEvent) (account : Key) (i : Nat) : Nat :=
  (orderPlaces events account).countP (i < ·)

/-- How many settlements of an account follow its first order and are older than a place. -/
def settlesBefore (events : List PoolEvent) (account : Key) (i : Nat) : Nat :=
  (settlePlaces events account).countP (i < ·)

theorem countP_getElem {places : List Nat} (h : places.Pairwise (· > ·)) {k : Nat}
    (hk : k < places.length) : places.countP (places[k] < ·) = k := by
  induction places generalizing k with
  | nil => simp at hk
  | cons x places ih =>
    obtain ⟨hx, hp⟩ := List.pairwise_cons.mp h
    cases k with
    | zero =>
      apply List.countP_eq_zero.mpr
      intro y hy
      have hle : y ≤ x := by
        rcases List.mem_cons.mp hy with rfl | hy
        · exact Nat.le_refl y
        · exact Nat.le_of_lt (hx y hy)
      simpa using hle
    | succ k =>
      have hk' : k < places.length := Nat.lt_of_succ_lt_succ hk
      have hlt : places[k] < x := hx _ (List.getElem_mem hk')
      simpa [List.countP_cons, hlt] using ih hp hk'

theorem countP_le_iff {places : List Nat} (h : places.Pairwise (· > ·)) {k : Nat}
    (hk : k < places.length) (i : Nat) : places.countP (i < ·) ≤ k ↔ places[k] ≤ i := by
  induction places generalizing k with
  | nil => simp at hk
  | cons x places ih =>
    obtain ⟨hx, hp⟩ := List.pairwise_cons.mp h
    by_cases hix : i < x
    · cases k with
      | zero => simp [hix]
      | succ k =>
        have hk' : k < places.length := Nat.lt_of_succ_lt_succ hk
        simpa [List.countP_cons, hix] using ih hp hk'
    · have hall : ∀ y ∈ x :: places, y ≤ i := by
        intro y hy
        rcases List.mem_cons.mp hy with rfl | hy
        · omega
        · have hyx := hx y hy
          omega
      have hnone : (x :: places).countP (i < ·) = 0 := by
        apply List.countP_eq_zero.mpr
        intro y hy
        simpa using hall y hy
      simp only [hnone, Nat.zero_le, true_iff]
      exact hall _ (List.getElem_mem hk)

theorem settle_newer_iff {k i j : Nat} (hi : (orderPlaces events account)[k]? = some i)
    (hj : (settlePlaces events account)[k]? = some j) :
    j < i ↔ settlesBefore events account i ≤ ordersBefore events account i := by
  obtain ⟨hk, rfl⟩ := List.getElem?_eq_some_iff.mp hi
  obtain ⟨hk', rfl⟩ := List.getElem?_eq_some_iff.mp hj
  have hne : (settlePlaces events account)[k] ≠ (orderPlaces events account)[k] := by
    intro he
    obtain ⟨o, ho, _⟩ := mem_orderPlaces.mp (List.getElem_mem hk)
    obtain ⟨⟨s, hs, _⟩, _⟩ := mem_settlePlaces.mp (List.getElem_mem hk')
    rw [he, ho] at hs
    cases hs
  rw [ordersBefore, countP_getElem pairwise_orderPlaces hk, settlesBefore,
    countP_le_iff pairwise_settlePlaces hk']
  omega

/-- A paired order has a settlement of its own account. This one is the newer of the two exactly
if, since the account's first order, settlements had not got ahead of orders before the order. -/
theorem settled_after_order_iff {n : Nat} {p : PairedOrder} {s : SettleEvent}
    (hp : (pair events)[n]? = some p) (hs : p.settle = some s) :
    ∃ i j, (attributions events)[n]? = some ⟨i, some j⟩ ∧
      events[i]? = some (.order p.order) ∧ events[j]? = some (.settle s) ∧
      s.openOrders = p.order.openOrders ∧
      (j < i ↔ settlesBefore events p.order.openOrders i ≤
        ordersBefore events p.order.openOrders i) := by
  obtain ⟨t, ht, hr⟩ := exists_attribution_of_getElem? hp
  obtain ⟨account, k, hi, hj⟩ := exists_turn_of_mem_attributions (List.mem_of_getElem? ht)
  cases hr with
  | pending => cases hs
  | @settled i j o s' ho hs' =>
    cases hs
    obtain ⟨o', ho', rfl⟩ := mem_orderPlaces.mp (List.mem_of_getElem? hi)
    obtain ⟨⟨s', hs'', hso⟩, _⟩ := mem_settlePlaces.mp (List.mem_of_getElem? hj.symm)
    cases ho.symm.trans ho'
    cases hs'.symm.trans hs''
    exact ⟨i, j, ht, ho, hs', hso, settle_newer_iff hi hj.symm⟩

def alternating : List PoolEvent :=
  [.settle (plainSettle "t" 4 7), .order (plainOrder "b" 3 7), .settle (plainSettle "s" 2 7),
    .order (plainOrder "a" 1 7)]

theorem settled_after_order_iff_alternating :
    (pair alternating)[0]? = some ⟨plainOrder "b" 3 7, some (plainSettle "t" 4 7)⟩ ∧
      ∃ i j, (attributions alternating)[0]? = some ⟨i, some j⟩ ∧
        alternating[i]? = some (.order (plainOrder "b" 3 7)) ∧
        alternating[j]? = some (.settle (plainSettle "t" 4 7)) ∧
        (plainSettle "t" 4 7).openOrders = (plainOrder "b" 3 7).openOrders ∧
        (j < i ↔ settlesBefore alternating (plainOrder "b" 3 7).openOrders i ≤
          ordersBefore alternating (plainOrder "b" 3 7).openOrders i) :=
  ⟨by decide, settled_after_order_iff
    (p := ⟨plainOrder "b" 3 7, some (plainSettle "t" 4 7)⟩) (by decide) rfl⟩

def surplus : List PoolEvent :=
  [.order (plainOrder "b" 4 7), .settle (plainSettle "t" 3 7), .settle (plainSettle "s" 2 7),
    .order (plainOrder "a" 1 7)]

theorem surplus_settles_later_order :
    (pair surplus)[0]? = some ⟨plainOrder "b" 4 7, some (plainSettle "t" 3 7)⟩ ∧
      ¬∃ i j : Nat, surplus[i]? = some (.order (plainOrder "b" 4 7)) ∧
        surplus[j]? = some (.settle (plainSettle "t" 3 7)) ∧ j < i := by
  refine ⟨by decide, ?_⟩
  have hall : ∀ i : Nat, i < 4 → ∀ j : Nat, j < 4 →
      surplus[i]? = some (.order (plainOrder "b" 4 7)) →
      surplus[j]? = some (.settle (plainSettle "t" 3 7)) → ¬j < i := by decide
  rintro ⟨i, j, hi, hj, hlt⟩
  have hi4 : i < 4 := (List.getElem?_eq_some_iff.mp hi).1
  have hj4 : j < 4 := (List.getElem?_eq_some_iff.mp hj).1
  exact hall i hi4 j hj4 hi hj hlt

end SignalPool.Pairing
