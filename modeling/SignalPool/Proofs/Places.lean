import SignalPool.Pairing

namespace SignalPool.Pairing

variable (events : List PoolEvent) (account : Key)

/-- The places of the events that pass a test, newest first. -/
def placesOf (test : PoolEvent → Bool) : List Nat :=
  (List.range events.length).filter fun i => events[i]?.any test

def isOrderOf : PoolEvent → Bool
  | .order o => o.openOrders = account
  | .settle _ => false

def isSettleOf : PoolEvent → Bool
  | .order _ => false
  | .settle s => s.openOrders = account

/-- The places of the orders of an account, oldest first. -/
def orderPlaces : List Nat := (placesOf events (isOrderOf account)).reverse

/-- The places of the settlements of an account that follow its first order, oldest first. -/
def settlePlaces : List Nat :=
  (placesOf events (isSettleOf account)).reverse.filter fun j =>
    (orderPlaces events account).any (j < ·)

def history : List PoolEvent := (events.filter (·.openOrders = account)).reverse

def ownPlaces : List Nat := (placesOf events (·.openOrders = account)).reverse

def isSettleAt (i : Nat) : Bool := events[i]?.any PoolEvent.isSettle

variable {events account}

theorem mem_placesOf {test : PoolEvent → Bool} {i : Nat} :
    i ∈ placesOf events test ↔ ∃ e, events[i]? = some e ∧ test e = true := by
  rw [placesOf, List.mem_filter, List.mem_range, Option.any_eq_true]
  constructor
  · rintro ⟨_, h⟩
    exact h
  · rintro ⟨e, he, ht⟩
    exact ⟨(List.getElem?_eq_some_iff.mp he).1, e, he, ht⟩

theorem pairwise_placesOf (test : PoolEvent → Bool) : (placesOf events test).Pairwise (· < ·) :=
  List.pairwise_lt_range.filter _

theorem map_placesOf (test : PoolEvent → Bool) :
    (placesOf events test).map (events[·]?) = (events.filter test).map some := by
  have hall : (List.range events.length).map (events[·]?) = events.map some := by
    apply List.ext_getElem?
    intro i
    by_cases hi : i < events.length <;> simp [hi]
  have hf : (fun i : Nat => events[i]?.any test) = Option.any test ∘ (events[·]?) := rfl
  have hs : Option.any test ∘ some = test := rfl
  rw [placesOf, hf, ← List.filter_map, hall, List.filter_map, hs]

theorem placesOf_narrow {test narrow : PoolEvent → Bool} {kind : Nat → Bool}
    (h : ∀ i e, events[i]? = some e → narrow e = (kind i && test e)) :
    placesOf events narrow = (placesOf events test).filter kind := by
  rw [placesOf, placesOf, List.filter_filter]
  apply List.filter_congr
  intro i hi
  obtain ⟨e, he⟩ : ∃ e, events[i]? = some e :=
    ⟨_, List.getElem?_eq_getElem (List.mem_range.mp hi)⟩
  rw [he, Option.any_some, Option.any_some]
  exact h i e he

theorem mem_orderPlaces {i : Nat} :
    i ∈ orderPlaces events account ↔
      ∃ o, events[i]? = some (.order o) ∧ o.openOrders = account := by
  rw [orderPlaces, List.mem_reverse, mem_placesOf]
  constructor
  · rintro ⟨e, he, ht⟩
    cases e with
    | order o => exact ⟨o, he, of_decide_eq_true ht⟩
    | settle s => cases ht
  · rintro ⟨o, ho, ha⟩
    exact ⟨.order o, ho, decide_eq_true ha⟩

theorem mem_settlePlaces {j : Nat} :
    j ∈ settlePlaces events account ↔
      (∃ s, events[j]? = some (.settle s) ∧ s.openOrders = account) ∧
        ∃ i ∈ orderPlaces events account, j < i := by
  rw [settlePlaces, List.mem_filter, List.mem_reverse, mem_placesOf, List.any_eq_true]
  simp only [decide_eq_true_eq]
  apply and_congr_left
  intro _
  constructor
  · rintro ⟨e, he, ht⟩
    cases e with
    | order o => cases ht
    | settle s => exact ⟨s, he, of_decide_eq_true ht⟩
  · rintro ⟨s, hs, ha⟩
    exact ⟨.settle s, hs, decide_eq_true ha⟩

theorem pairwise_orderPlaces : (orderPlaces events account).Pairwise (· > ·) :=
  List.pairwise_reverse.mpr (pairwise_placesOf _)

theorem pairwise_settlePlaces : (settlePlaces events account).Pairwise (· > ·) :=
  (List.pairwise_reverse.mpr (pairwise_placesOf _)).filter _

theorem map_order_filterMap (es : List PoolEvent) :
    (es.filterMap PoolEvent.order?).map PoolEvent.order = es.filter (!·.isSettle) := by
  induction es with
  | nil => rfl
  | cons e es ih => cases e <;> simp [List.filterMap_cons, ih]

theorem map_settle_filterMap (es : List PoolEvent) :
    (es.filterMap PoolEvent.settle?).map PoolEvent.settle = es.filter PoolEvent.isSettle := by
  induction es with
  | nil => rfl
  | cons e es ih => cases e <;> simp [List.filterMap_cons, List.filter_cons, ih]

/-- Of falling places, those of a kind that come after one of the other kind are those that are
left once the leading run of the kind is dropped. -/
theorem filter_after_other (kind : Nat → Bool) {places : List Nat}
    (h : places.Pairwise (· > ·)) :
    (places.filter kind).filter (fun j => (places.filter (!kind ·)).any (j < ·)) =
      (places.dropWhile kind).filter kind := by
  induction places with
  | nil => rfl
  | cons i places ih =>
    obtain ⟨hi, hp⟩ := List.pairwise_cons.mp h
    cases hk : kind i with
    | true =>
      have hhead : (places.filter (!kind ·)).any (i < ·) = false := by
        apply List.any_eq_false.mpr
        intro x hx
        have : i > x := hi x (List.mem_filter.mp hx).1
        simp only [decide_eq_true_eq]
        omega
      simp only [List.filter_cons, hk, Bool.not_true, ↓reduceIte, Bool.false_eq_true, hhead,
        List.dropWhile_cons]
      exact ih hp
    | false =>
      simp only [List.filter_cons, hk, Bool.not_false, ↓reduceIte, Bool.false_eq_true,
        List.dropWhile_cons, List.any_cons]
      apply List.filter_eq_self.mpr
      intro j hj
      have : i > j := hi j (List.mem_filter.mp hj).1
      simp [this]

theorem map_orderPlaces :
    (orderPlaces events account).map (events[·]?) =
      ((history events account).filterMap PoolEvent.order?).map (some ∘ PoolEvent.order) := by
  have htest : isOrderOf account = fun e => !e.isSettle && decide (e.openOrders = account) := by
    funext e
    cases e <;> rfl
  have hvalues : (events.filter (isOrderOf account)).reverse =
      ((history events account).filterMap PoolEvent.order?).map PoolEvent.order := by
    rw [map_order_filterMap, history, List.filter_reverse, List.filter_filter, htest]
  rw [orderPlaces, List.map_reverse, map_placesOf, ← List.map_reverse, hvalues, List.map_map]

theorem pairwise_ownPlaces : (ownPlaces events account).Pairwise (· > ·) :=
  List.pairwise_reverse.mpr (pairwise_placesOf _)

theorem mem_ownPlaces {i : Nat} :
    i ∈ ownPlaces events account ↔ (events[i]?).map PoolEvent.openOrders = some account := by
  rw [ownPlaces, List.mem_reverse, mem_placesOf, Option.map_eq_some_iff]
  simp only [decide_eq_true_eq]

theorem map_ownPlaces :
    (ownPlaces events account).map (events[·]?) = (history events account).map some := by
  rw [ownPlaces, List.map_reverse, map_placesOf, history, List.map_reverse]

theorem orderPlaces_eq :
    orderPlaces events account = (ownPlaces events account).filter (!isSettleAt events ·) := by
  rw [orderPlaces, ownPlaces, List.filter_reverse, placesOf_narrow]
  intro i e he
  cases e <;> simp only [isSettleAt, he] <;> rfl

theorem settlePlaces_eq :
    settlePlaces events account =
      ((ownPlaces events account).dropWhile (isSettleAt events)).filter (isSettleAt events) := by
  have hsettles : (placesOf events (isSettleOf account)).reverse =
      (ownPlaces events account).filter (isSettleAt events) := by
    rw [ownPlaces, List.filter_reverse, placesOf_narrow]
    intro i e he
    cases e <;> simp only [isSettleAt, he] <;> rfl
  rw [settlePlaces, orderPlaces_eq, hsettles]
  exact filter_after_other (isSettleAt events) pairwise_ownPlaces

theorem map_settlePlaces :
    (settlePlaces events account).map (events[·]?) =
      (((history events account).dropWhile PoolEvent.isSettle).filterMap PoolEvent.settle?).map
        (some ∘ PoolEvent.settle) := by
  have hkind : isSettleAt events = Option.any PoolEvent.isSettle ∘ (events[·]?) := rfl
  have hsome : Option.any PoolEvent.isSettle ∘ some = PoolEvent.isSettle := rfl
  rw [settlePlaces_eq, hkind, ← List.filter_map, ← List.dropWhile_map, map_ownPlaces,
    List.dropWhile_map, List.filter_map, hsome, ← map_settle_filterMap, List.map_map]

end SignalPool.Pairing
