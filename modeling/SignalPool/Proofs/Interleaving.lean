import SignalPool.Proofs.Accumulation
import SignalPool.Proofs.Growth

namespace SignalPool.Pairing

/-- Adds an event to the group of its account; the first event of an account opens a group behind
those that are there. -/
def gather (groups : Table Key (List PoolEvent)) (e : PoolEvent) : Table Key (List PoolEvent) :=
  groups.insert e.openOrders ((groups.get? e.openOrders).getD [] ++ [e])

def groups (events : List PoolEvent) : Table Key (List PoolEvent) := events.foldl gather []

variable {events : List PoolEvent} {account : Key}

theorem filter_of_notMem_accounts (h : account ∉ accounts events) :
    events.filter (·.openOrders = account) = [] := by
  apply List.filter_eq_nil_iff.mpr
  intro e he ha
  exact h (mem_accounts.mpr ⟨e, he, of_decide_eq_true ha⟩)

theorem groups_eq (events : List PoolEvent) :
    groups events = (accounts events).map fun a => (a, events.filter (·.openOrders = a)) := by
  refine Table.foldl_insert_eq PoolEvent.openOrders (fun group e => group.getD [] ++ [e])
    (fun events a => events.filter (·.openOrders = a)) ?_ ?_ ?_ events
  · intro events e a ha
    simp [ha]
  · intro events e he
    simp [filter_of_notMem_accounts (mt List.mem_eraseDups.mp he)]
  · intro events e _
    simp

theorem history_filter (events : List PoolEvent) (account : Key) :
    history (events.filter (·.openOrders = account)) account = history events account := by
  simp [history, List.filter_filter]

theorem order_mem_of_mem_pair {p : PairedOrder} (hp : p ∈ pair events) :
    PoolEvent.order p.order ∈ events := by
  rw [pair_eq_flatMap] at hp
  obtain ⟨a, _, hpa⟩ := List.mem_flatMap.mp hp
  exact (of_mem_ofAccount (List.mem_reverse.mp hpa)).1

theorem pair_filter (events : List PoolEvent) (account : Key) :
    pair (events.filter (·.openOrders = account)) = pairedOf events account := by
  have hown : ∀ p ∈ pair (events.filter (·.openOrders = account)),
      p.order.openOrders = account := by
    intro p hp
    exact of_decide_eq_true (List.mem_filter.mp (order_mem_of_mem_pair hp)).2
  calc pair (events.filter (·.openOrders = account))
    _ = pairedOf (events.filter (·.openOrders = account)) account :=
        (List.filter_eq_self.mpr fun p hp => decide_eq_true (hown p hp)).symm
    _ = (ofAccount (history events account)).reverse := by rw [pairedOf_eq, history_filter]
    _ = pairedOf events account := pairedOf_eq.symm

/-- Accounts are paired independently. One pass over the events leaves one group for each account,
in the order in which the accounts first come, with the events of the account; what pairing gives
is what it gives for each group, one after the other. So events that interleave in another way,
with the same events of each account, give each account the same paired orders. -/
theorem pair_by_account (events : List PoolEvent) :
    groups events = (accounts events).map (fun a => (a, events.filter (·.openOrders = a))) ∧
      (accounts events).Pairwise (fun a b => firstPlace events a < firstPlace events b) ∧
      pair events = (accounts events).flatMap (fun a => pair (events.filter (·.openOrders = a))) ∧
      ∀ events', (∀ a, events'.filter (·.openOrders = a) = events.filter (·.openOrders = a)) →
        ∀ a, pairedOf events' a = pairedOf events a := by
  refine ⟨groups_eq events, pairwise_accounts events, ?_, fun events' h a => ?_⟩
  · rw [pair_eq_flatMap]
    apply List.flatMap_congr
    intro a _
    rw [pair_filter, pairedOf_eq]
  · rw [← pair_filter, ← pair_filter, h]

def apart : List PoolEvent :=
  [.settle (plainSettle "t" 6 7), .order (plainOrder "a" 1 7), .settle (plainSettle "v" 5 8),
    .order (plainOrder "d" 4 8), .settle (plainSettle "u" 3 8), .settle (plainSettle "s" 3 8),
    .order (plainOrder "b" 2 8)]

def mixed : List PoolEvent :=
  [.settle (plainSettle "v" 5 8), .settle (plainSettle "t" 6 7), .order (plainOrder "d" 4 8),
    .settle (plainSettle "u" 3 8), .order (plainOrder "a" 1 7), .settle (plainSettle "s" 3 8),
    .order (plainOrder "b" 2 8)]

theorem filter_mixed (a : Key) :
    mixed.filter (·.openOrders = a) = apart.filter (·.openOrders = a) := by
  by_cases ha : a ∈ accounts apart
  · have hboth : ∀ b ∈ accounts apart,
        mixed.filter (·.openOrders = b) = apart.filter (·.openOrders = b) := by decide
    exact hboth a ha
  · have hmixed : accounts mixed = (accounts apart).reverse := by decide
    have ha' : a ∉ accounts mixed := fun h => ha (List.mem_reverse.mp (hmixed ▸ h))
    rw [filter_of_notMem_accounts ha, filter_of_notMem_accounts ha']

theorem pair_by_account_mixed :
    (∀ a, mixed.filter (·.openOrders = a) = apart.filter (·.openOrders = a)) ∧
      pair mixed ≠ pair apart ∧ ∀ a, pairedOf mixed a = pairedOf apart a := by
  obtain ⟨_, _, _, hpaired⟩ := pair_by_account apart
  exact ⟨filter_mixed, by decide, hpaired mixed filter_mixed⟩

end SignalPool.Pairing
