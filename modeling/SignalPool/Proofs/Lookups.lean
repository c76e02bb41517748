import SignalPool.Proofs.Grouping
import SignalPool.Proofs.Restatement

namespace SignalPool

/-- The mints whose decimals an order needs; none, if the node does not have its market. -/
def Node.needed (n : Node) (p : PairedOrder) : List Key :=
  match n.market? p.order.market with
  | some m => p.moved m
  | none => []

namespace Client

theorem requests_read (c : Client) {α : Type} (decode : Bytes → Except FormatFault α) (k : Key) :
    (c.read decode k).requests = [.account k] := by
  rw [read, Trace.requests_bind]
  cases (c.account k).value <;> rfl

end Client

namespace Reconstructor

section Resolving

variable {α : Type} {read : Key → Trace (Except ReadFault α)} {report : Key → ReadFault → Warning}

theorem requests_resolve (hread : ∀ k, (read k).requests = [.account k]) (ks : List Key) :
    (resolve read report ks).requests = ks.map .account := by
  induction ks with
  | nil => rfl
  | cons k ks ih =>
    rw [resolve, Trace.requests_bind, hread, List.map_cons, ← ih]
    cases (read k).value with
    | ok a => simp
    | error f => simp [Trace.warn]

variable (read report) in
/-- Reads something for each key as the keys come. What was found is remembered, and which keys
failed, so that no key is read again. -/
def resolveInTurn (found : Table Key α) (failed : List Key) : List Key → Trace (Table Key α)
  | [] => pure found
  | k :: ks => do
    if k ∈ found.keys ∨ k ∈ failed then
      resolveInTurn found failed ks
    else
      match ← read k with
      | .ok a => resolveInTurn (found.insert k a) failed ks
      | .error f =>
        Trace.warn [report k f]
        resolveInTurn found (k :: failed) ks

def unseen (found : Table Key α) (failed ks : List Key) : List Key :=
  ks.filter fun k => k ∉ found.keys ∧ k ∉ failed

theorem unseen_cons_of_seen {found : Table Key α} {failed : List Key} {k : Key}
    (hk : k ∈ found.keys ∨ k ∈ failed) (ks : List Key) :
    unseen found failed (k :: ks) = unseen found failed ks :=
  List.filter_cons_of_neg (by simpa [or_iff_not_imp_left] using hk)

theorem unseen_cons_of_new {found : Table Key α} {failed : List Key} {k : Key}
    (hk : ¬(k ∈ found.keys ∨ k ∈ failed)) (ks : List Key) :
    unseen found failed (k :: ks) = k :: unseen found failed ks :=
  List.filter_cons_of_pos (by simpa [not_or] using hk)

theorem unseen_insert (found : Table Key α) (failed : List Key) (k : Key) (a : α) (ks : List Key) :
    unseen (found.insert k a) failed ks = (unseen found failed ks).filter fun j => !j == k := by
  rw [unseen, unseen, List.filter_filter]
  refine List.filter_congr fun j _ => ?_
  simp [Table.mem_keys_insert, Bool.and_assoc, beq_eq_decide]

theorem unseen_cons_failed (found : Table Key α) (failed : List Key) (k : Key) (ks : List Key) :
    unseen found (k :: failed) ks = (unseen found failed ks).filter fun j => !j == k := by
  rw [unseen, unseen, List.filter_filter]
  refine List.filter_congr fun j _ => ?_
  simp [and_left_comm, beq_eq_decide]

theorem resolveInTurn_eq (found : Table Key α) (failed ks : List Key) :
    resolveInTurn read report found failed ks =
      (found ++ ·) <$> resolve read report (unseen found failed ks).eraseDups := by
  induction ks generalizing found failed with
  | nil => simp [resolveInTurn, unseen, resolve]
  | cons k ks ih =>
    by_cases hk : k ∈ found.keys ∨ k ∈ failed
    · rw [resolveInTurn, if_pos hk, ih, unseen_cons_of_seen hk]
    · rw [resolveInTurn, if_neg hk, unseen_cons_of_new hk, List.eraseDups_cons, resolve, map_bind]
      congr 1
      funext answer
      cases answer with
      | ok a =>
        have hnew : found.insert k a = found ++ [(k, a)] :=
          Table.insert_of_notMem (fun h => hk (.inl h)) a
        simp only [ih, unseen_insert]
        simp only [hnew, bind_pure_comp, Functor.map_map, List.append_assoc, List.singleton_append]
      | error f => simp only [ih, unseen_cons_failed, map_bind]

theorem resolveInTurn_nil (ks : List Key) :
    resolveInTurn read report [] [] ks = resolve read report ks.eraseDups := by
  have hunseen : unseen ([] : Table Key α) [] ks = ks := by simp [unseen, Table.keys]
  rw [resolveInTurn_eq, hunseen]
  exact id_map _

end Resolving

theorem mintsOfAll_known (n : Node) (paired : List PairedOrder) :
    mintsOfAll (knownMarkets n paired) paired = (paired.flatMap n.needed).eraseDups := by
  have hmints : ∀ p ∈ paired, mintsOf (knownMarkets n paired) p = n.needed p := by
    intro p hp
    rw [mintsOf, get?_knownMarkets n hp, Node.needed]
    cases n.market? p.order.market <;> rfl
  rw [mintsOfAll, List.flatMap_congr hmints]

variable (r : Reconstructor) (pool : TrackedPool) (txs : List Transaction) (limit : Int)

theorem requests_orders : (r.orders pool txs limit).requests =
    (marketsOf (r.recent pool txs limit)).map .account ++
      ((r.recent pool txs limit).flatMap r.client.node.needed).eraseDups.map .account := by
  have hmarkets (ks : List Key) :
      (resolve r.client.readMarket .marketSkipped ks).requests = ks.map .account :=
    requests_resolve (fun _ => r.client.requests_read _ _) ks
  have hdecimals (ks : List Key) :
      (resolve r.client.readDecimals .decimalsUnknown ks).requests = ks.map .account :=
    requests_resolve (fun _ => r.client.requests_read _ _) ks
  simp only [orders, Trace.requests_bind, Trace.requests_pure, Trace.warn, hmarkets, hdecimals,
    value_resolve_markets, mintsOfAll_known, List.nil_append, List.append_nil, recent]

theorem mem_requests_orders {q : Request} (h : q ∈ (r.orders pool txs limit).requests) :
    ∃ p ∈ r.recent pool txs limit,
      q = .account p.order.market ∨ ∃ k ∈ r.client.node.needed p, q = .account k := by
  rw [requests_orders, List.mem_append] at h
  obtain hmarket | hmint := h
  · obtain ⟨k, hk, rfl⟩ := List.mem_map.mp hmarket
    obtain ⟨p, hp, rfl⟩ := List.mem_map.mp (List.mem_eraseDups.mp hk)
    exact ⟨p, hp, .inl rfl⟩
  · obtain ⟨k, hk, rfl⟩ := List.mem_map.mp hmint
    obtain ⟨p, hp, hkp⟩ := List.mem_flatMap.mp (List.mem_eraseDups.mp hk)
    exact ⟨p, hp, .inr ⟨k, hkp, rfl⟩⟩

/-- What is asked of the node are accounts: the markets of the selected orders, then the mints that
those of them need whose market the node has, each of them once and where it first comes. Nothing is
asked for other orders. The markets might as well be looked up order by order, if it is remembered
which of them were found and which failed. -/
theorem orders_requests :
    (∃ markets mints : List Key,
      (r.orders pool txs limit).requests = markets.map .account ++ mints.map .account ∧
      Grouping.Firsts markets ((r.recent pool txs limit).map (·.order.market)) ∧
      Grouping.Firsts mints ((r.recent pool txs limit).flatMap r.client.node.needed)) ∧
    (∀ q ∈ (r.orders pool txs limit).requests, ∃ p ∈ r.recent pool txs limit,
      q = .account p.order.market ∨ ∃ k ∈ r.client.node.needed p, q = .account k) ∧
    resolve r.client.readMarket .marketSkipped (marketsOf (r.recent pool txs limit)) =
      resolveInTurn r.client.readMarket .marketSkipped [] []
        ((r.recent pool txs limit).map (·.order.market)) :=
  ⟨⟨_, _, r.requests_orders pool txs limit, Grouping.firsts_eraseDups _,
    Grouping.firsts_eraseDups _⟩, fun _ => r.mem_requests_orders pool txs limit,
    (resolveInTurn_nil _).symm⟩

end Reconstructor

end SignalPool
