import Mathlib.Data.List.Chain
import SignalPool.Proofs.Attribution

namespace SignalPool.Pairing

variable {events : List PoolEvent} {account : Key}

/-- In the history of each account, orders and settlements take turns. -/
def Alternates (events : List PoolEvent) : Prop :=
  ∀ account, (history events account).IsChain fun a b => a.isSettle ≠ b.isSettle

/-- The event of an account that comes next in time after a place, if there is one. -/
inductive Next (events : List PoolEvent) (account : Key) (i : Nat) : Option Nat → Prop
  | newest (h : ∀ j < i, (events[j]?).map PoolEvent.openOrders ≠ some account) :
      Next events account i none
  | event {j : Nat} (hj : j < i) (ho : (events[j]?).map PoolEvent.openOrders = some account)
      (h : ∀ k, j < k → k < i → (events[k]?).map PoolEvent.openOrders ≠ some account) :
      Next events account i (some j)

theorem history_of_notMem (h : account ∉ accounts events) : history events account = [] := by
  rw [history, List.reverse_eq_nil_iff, List.filter_eq_nil_iff]
  intro e he ha
  exact h (mem_accounts.mpr ⟨e, he, of_decide_eq_true ha⟩)

instance (events : List PoolEvent) : Decidable (Alternates events) :=
  decidable_of_iff (∀ account ∈ accounts events,
    (history events account).IsChain fun a b => a.isSettle ≠ b.isSettle) <| by
    constructor
    · intro h account
      by_cases ha : account ∈ accounts events
      · exact h account ha
      · rw [history_of_notMem ha]
        exact List.IsChain.nil
    · exact fun h account _ => h account

theorem history_take_suffix (events : List PoolEvent) (account : Key) (n : Nat) :
    history (events.take n) account <:+ history events account := by
  rw [history, history, List.reverse_suffix]
  exact (List.take_prefix n events).filter _

theorem Alternates.take (h : Alternates events) (n : Nat) : Alternates (events.take n) :=
  fun account => (h account).suffix (history_take_suffix events account n)

theorem Alternates.isChain_ownPlaces (h : Alternates events) (account : Key) :
    (ownPlaces events account).IsChain fun i j => isSettleAt events i ≠ isSettleAt events j := by
  let differ (a b : Option PoolEvent) : Prop :=
    a.any PoolEvent.isSettle ≠ b.any PoolEvent.isSettle
  have hvalues : ((history events account).map some).IsChain differ :=
    (List.isChain_map some).mpr (h account)
  rw [← map_ownPlaces] at hvalues
  exact (List.isChain_map (events[·]?)).mp hvalues

section Turns

variable {kind : Nat → Bool} {places : List Nat}

theorem any_head?_of_isChain {x : Nat} (h : (x :: places).IsChain fun i j => kind i ≠ kind j)
    (hne : places ≠ []) : places.head?.any kind = !kind x := by
  cases places with
  | nil => exact absurd rfl hne
  | cons y places =>
    have hxy : kind x ≠ kind y := (List.isChain_cons_cons.mp h).1
    exact Bool.eq_not_of_ne hxy.symm

theorem getElem?_turn (h : places.IsChain fun i j => kind i ≠ kind j) {k i : Nat}
    (hi : (places.filter (!kind ·))[k]? = some i) :
    ∃ older newer, places = older ++ i :: newer ∧
      (places.filter kind)[k + (places.head?.any kind).toNat]? = newer.head? := by
  induction places generalizing k with
  | nil => simp at hi
  | cons x places ih =>
    cases hx : kind x with
    | true =>
      rw [List.filter_cons_of_neg (by simp [hx])] at hi
      obtain ⟨older, newer, hsplit, hnext⟩ := ih h.tail hi
      have hlead : places.head?.any kind = false := by
        rw [any_head?_of_isChain h (by simp [hsplit]), hx, Bool.not_true]
      refine ⟨x :: older, newer, by rw [hsplit, List.cons_append], ?_⟩
      simpa [hx, hlead] using hnext
    | false =>
      rw [List.filter_cons_of_pos (by simp [hx])] at hi
      cases k with
      | zero =>
        cases hi
        refine ⟨[], places, rfl, ?_⟩
        cases places with
        | nil => simp [hx]
        | cons y places =>
          have hy : kind y = true := by
            simpa [hx] using any_head?_of_isChain h (List.cons_ne_nil y places)
          simp [hx, hy]
      | succ k =>
        obtain ⟨older, newer, hsplit, hnext⟩ := ih h.tail hi
        have hlead : places.head?.any kind = true := by
          rw [any_head?_of_isChain h (by simp [hsplit]), hx, Bool.not_false]
        refine ⟨x :: older, newer, by rw [hsplit, List.cons_append], ?_⟩
        simpa [hx, hlead] using hnext

theorem getElem?_dropWhile_turn (h : places.IsChain fun i j => kind i ≠ kind j) (k : Nat) :
    ((places.dropWhile kind).filter kind)[k]? =
      (places.filter kind)[k + (places.head?.any kind).toNat]? := by
  cases places with
  | nil => simp
  | cons x places =>
    cases hx : kind x with
    | false => simp [hx]
    | true =>
      cases places with
      | nil => simp [hx]
      | cons y places =>
        have hy : kind y = false := by
          simpa [hx] using any_head?_of_isChain h (List.cons_ne_nil y places)
        simp [hx, hy]

theorem mem_newer {older newer : List Nat} {i k : Nat}
    (h : (older ++ i :: newer).Pairwise (· > ·)) (hk : k ∈ older ++ i :: newer) (hlt : k < i) :
    k ∈ newer := by
  obtain ⟨_, _, hcross⟩ := List.pairwise_append.mp h
  rcases List.mem_append.mp hk with hold | hnew
  · have hgt : k > i := hcross k hold i List.mem_cons_self
    omega
  · rcases List.mem_cons.mp hnew with rfl | hnew
    · exact absurd hlt (Nat.lt_irrefl k)
    · exact hnew

end Turns

theorem Alternates.next_inTurn (h : Alternates events) {k i : Nat}
    (hi : (orderPlaces events account)[k]? = some i) :
    Next events account i (settlePlaces events account)[k]? := by
  have hchain := h.isChain_ownPlaces account
  rw [orderPlaces_eq] at hi
  rw [settlePlaces_eq, getElem?_dropWhile_turn hchain]
  obtain ⟨older, newer, hsplit, hnext⟩ := getElem?_turn hchain hi
  have hfalling : (older ++ i :: newer).Pairwise (· > ·) := hsplit ▸ pairwise_ownPlaces
  have hnewer {j : Nat} (hj : j < i) (ha : (events[j]?).map PoolEvent.openOrders = some account) :
      j ∈ newer := mem_newer hfalling (hsplit ▸ mem_ownPlaces.mpr ha) hj
  rw [hnext]
  cases newer with
  | nil => exact .newest fun j hj ha => List.not_mem_nil (hnewer hj ha)
  | cons j newer =>
    obtain ⟨hij, hjnewer⟩ := List.pairwise_cons.mp (List.pairwise_append.mp hfalling).2.1
    have hown : j ∈ ownPlaces events account := by simp [hsplit]
    refine .event (hij j List.mem_cons_self) (mem_ownPlaces.mp hown) fun k hjk hki ha => ?_
    rcases List.mem_cons.mp (hnewer hki ha) with rfl | hk
    · exact Nat.lt_irrefl k hjk
    · exact Nat.lt_asymm hjk ((List.pairwise_cons.mp hjnewer).1 k hk)

/-- Which event comes next is the same in any cut that keeps the place. -/
theorem Next.of_take {n i : Nat} {next : Option Nat} (hi : i < n)
    (h : Next (events.take n) account i next) : Next events account i next := by
  have hget {j : Nat} (hj : j < i) : (events.take n)[j]? = events[j]? :=
    List.getElem?_take_of_lt (Nat.lt_trans hj hi)
  cases h with
  | newest h => exact .newest fun j hj => hget hj ▸ h j hj
  | event hj ho h => exact .event hj (hget hj ▸ ho) fun k hjk hki => hget hki ▸ h k hjk hki

theorem Next.unique {i : Nat} {next next' : Option Nat} (h : Next events account i next)
    (h' : Next events account i next') : next = next' := by
  cases h with
  | newest h =>
    cases h' with
    | newest => rfl
    | event hj ho => exact absurd ho (h _ hj)
  | @event j hj ho h =>
    cases h' with
    | newest h' => exact absurd ho (h' j hj)
    | @event j' hj' ho' h' =>
      rcases Nat.lt_trichotomy j j' with hlt | rfl | hgt
      · exact absurd ho' (h j' hlt hj')
      · rfl
      · exact absurd ho (h' j hgt hj)

theorem order_of_reads {t : Attribution} {p : PairedOrder} (h : t.Reads events p) :
    events[t.order]? = some (.order p.order) := by
  cases h with
  | pending ho => exact ho
  | settled ho => exact ho

theorem getElem?_of_take {n i : Nat} {e : PoolEvent} (h : (events.take n)[i]? = some e) :
    events[i]? = some e := by
  have hlt : i < n := by
    have hlength : i < (events.take n).length := (List.getElem?_eq_some_iff.mp h).1
    rw [List.length_take] at hlength
    omega
  rwa [List.getElem?_take_of_lt hlt] at h

theorem reads_of_take {n : Nat} {t : Attribution} {p : PairedOrder}
    (h : t.Reads (events.take n) p) : t.Reads events p := by
  cases h with
  | pending ho => exact .pending (getElem?_of_take ho)
  | settled ho hs => exact .settled (getElem?_of_take ho) (getElem?_of_take hs)

theorem reads_unique {t : Attribution} {p q : PairedOrder} (h : t.Reads events p)
    (h' : t.Reads events q) : p = q := by
  cases h with
  | pending ho =>
    cases h' with
    | pending ho' =>
      cases ho.symm.trans ho'
      rfl
  | settled ho hs =>
    cases h' with
    | settled ho' hs' =>
      cases ho.symm.trans ho'
      cases hs.symm.trans hs'
      rfl

def Gives (events : List PoolEvent) (t : Attribution) (p : PairedOrder) : Prop :=
  t.Reads events p ∧
    ∃ k : Nat, (attributions events)[k]? = some t ∧ (pair events)[k]? = some p

theorem exists_gives {i : Nat} {o : OrderEvent} (ho : events[i]? = some (.order o)) :
    ∃ t p, t.order = i ∧ p.order = o ∧ Gives events t p := by
  obtain ⟨t, ht, rfl⟩ := List.mem_map.mp ((fifo_attributions events).mem_orders i |>.mpr ⟨o, ho⟩)
  obtain ⟨k, hk⟩ := List.mem_iff_getElem?.mp ht
  have hlt : k < (pair events).length := by
    rw [← (reads_pair events).length_eq]
    exact (List.getElem?_eq_some_iff.mp hk).1
  have hp : (pair events)[k]? = some (pair events)[k] := List.getElem?_eq_getElem hlt
  obtain ⟨t', ht', hr⟩ := exists_attribution_of_getElem? hp
  cases hk.symm.trans ht'
  cases ho.symm.trans (order_of_reads hr)
  exact ⟨t, (pair events)[k], rfl, rfl, hr, k, hk, hp⟩

theorem Alternates.next_of_gives (h : Alternates events) {t : Attribution} {p : PairedOrder}
    {o : OrderEvent} (ho : events[t.order]? = some (.order o)) (hg : Gives events t p) :
    Next events o.openOrders t.order t.settle := by
  obtain ⟨_, k, hk, _⟩ := hg
  obtain ⟨account, turn, hi, hsettle⟩ := exists_turn_of_mem_attributions (List.mem_of_getElem? hk)
  obtain ⟨o', ho', rfl⟩ := mem_orderPlaces.mp (List.mem_of_getElem? hi)
  cases ho.symm.trans ho'
  rw [hsettle]
  exact h.next_inTurn hi

/-- Where orders and settlements of each account take turns, every order of a cut is paired as it
is in the whole list: with the next event of its account, or with none if it is the newest. -/
theorem pair_take_of_alternates (h : Alternates events) (n : Nat) {i : Nat} {o : OrderEvent}
    (hi : i < n) (ho : events[i]? = some (.order o)) :
    ∃ t p, t.order = i ∧ p.order = o ∧ Gives (events.take n) t p ∧ Gives events t p ∧
      Next events o.openOrders i t.settle := by
  have hcut : (events.take n)[i]? = some (.order o) := by rw [List.getElem?_take_of_lt hi, ho]
  obtain ⟨t, p, rfl, rfl, hg⟩ := exists_gives ho
  obtain ⟨t', p', horder, _, hg'⟩ := exists_gives hcut
  have hnext := h.next_of_gives ho hg
  have hnext' : Next events p.order.openOrders t'.order t'.settle :=
    ((h.take n).next_of_gives (horder ▸ hcut) hg').of_take (horder ▸ hi)
  have hsettle : t'.settle = t.settle := (horder ▸ hnext').unique hnext
  obtain rfl : t' = t := by
    cases t
    cases t'
    cases horder
    cases hsettle
    rfl
  obtain rfl : p' = p := reads_unique (reads_of_take hg'.1) hg.1
  exact ⟨t', p', rfl, rfl, hg', hg, hnext⟩

def interleaved : List PoolEvent :=
  [.settle (plainSettle "v" 6 7), .order (plainOrder "d" 5 8), .order (plainOrder "b" 4 7),
    .settle (plainSettle "u" 3 8), .settle (plainSettle "s" 2 7), .order (plainOrder "a" 1 7)]

theorem pair_take_of_alternates_interleaved :
    Alternates interleaved ∧ interleaved[2]? = some (.order (plainOrder "b" 4 7)) ∧
      ∃ t p, t.order = 2 ∧ p.order = plainOrder "b" 4 7 ∧ Gives (interleaved.take 5) t p ∧
        Gives interleaved t p ∧ Next interleaved (plainOrder "b" 4 7).openOrders 2 t.settle :=
  ⟨by decide, rfl, pair_take_of_alternates (by decide) 5 (by decide) rfl⟩

end SignalPool.Pairing
