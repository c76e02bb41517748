import SignalPool.Proofs.PoolFetch
import SignalPool.Proofs.Restatement

namespace SignalPool

namespace Ranking

variable {α β : Type} (slot : α → Int)

theorem place_of_forall_le {a : α} {as : List α} (h : ∀ b ∈ as, slot b ≤ slot a) :
    place slot a as = a :: as := by
  cases as with
  | nil => rfl
  | cons b bs => rw [place, if_pos (h b List.mem_cons_self)]

theorem filter_place_of_pairwise (p : α → Bool) (a : α) {as : List α}
    (h : as.Pairwise fun x y => slot y ≤ slot x) :
    (place slot a as).filter p = if p a then place slot a (as.filter p) else as.filter p := by
  induction as with
  | nil => cases hp : p a <;> simp [place, hp]
  | cons b bs ih =>
    obtain ⟨hb, hbs⟩ := List.pairwise_cons.mp h
    by_cases hba : slot b ≤ slot a
    · have hall : ∀ c ∈ (b :: bs).filter p, slot c ≤ slot a := by
        intro c hc
        rcases List.mem_cons.mp (List.mem_filter.mp hc).1 with rfl | hc
        · exact hba
        · exact Int.le_trans (hb c hc) hba
      rw [place, if_pos hba, place_of_forall_le slot hall, List.filter_cons]
    · rw [place, if_neg hba, List.filter_cons, List.filter_cons, ih hbs]
      cases p a <;> cases p b <;> simp [place, hba]

theorem newestFirst_filter (p : α → Bool) (as : List α) :
    newestFirst slot (as.filter p) = (newestFirst slot as).filter p := by
  induction as with
  | nil => rfl
  | cons a as ih =>
    rw [newestFirst, filter_place_of_pairwise slot p a (pairwise_newestFirst slot as), ← ih,
      List.filter_cons]
    cases p a <;> rfl

/-- What comes of sorted elements depends on those of which something comes. -/
theorem flatMap_newestFirst_congr {f : α → List β} {as bs : List α}
    (h : as.filter (fun a => !(f a).isEmpty) = bs.filter fun a => !(f a).isEmpty) :
    (newestFirst slot as).flatMap f = (newestFirst slot bs).flatMap f := by
  have hdrop (l : List α) : (l.filter fun a => !(f a).isEmpty).flatMap f = l.flatMap f := by
    induction l with
    | nil => rfl
    | cons a l ih => cases hf : f a <;> simp [hf, ih]
  rw [← hdrop, ← newestFirst_filter, h, newestFirst_filter, hdrop]

end Ranking

namespace Node

def served? (n : Node) (signature : Text) : Option Transaction :=
  (History.kept signature (History.transaction n signature).value).1

/-- A node that answers as another does, but fails on some transactions or does not have them. -/
structure Misses (n m : Node) : Prop where
  account : n.account = m.account
  supply : n.supply = m.supply
  balance : n.balance = m.balance
  programAccounts : n.programAccounts = m.programAccounts
  signatures : n.signatures = m.signatures
  transaction (s : Signature) : n.transaction s = m.transaction s ∨
    n.transaction s = .ok none ∨ ∃ reason, n.transaction s = .error reason

variable {n m : Node}

theorem Misses.served? (h : n.Misses m) (signature : Text) :
    n.served? signature = m.served? signature ∨ n.served? signature = none := by
  simp only [Node.served?, History.transaction]
  cases Signature.parse signature with
  | error f => exact .inl rfl
  | ok s =>
    simp only [Trace.value_bind, Trace.value_pure, Trace.ask]
    obtain hs | hs | ⟨reason, hs⟩ := h.transaction s
    · exact .inl (by rw [hs])
    · exact .inr (by rw [hs]; rfl)
    · exact .inr (by rw [hs]; rfl)

theorem Misses.filter_served {β : Type} {f : Transaction → List β} (h : n.Misses m)
    (infos : List SignatureInfo)
    (hlost : ∀ i ∈ infos, ∀ tx, m.served? i.signature = some tx → n.served? i.signature = none →
      f tx = []) :
    (infos.filterMap fun i => n.served? i.signature).filter (fun tx => !(f tx).isEmpty) =
      (infos.filterMap fun i => m.served? i.signature).filter fun tx => !(f tx).isEmpty := by
  induction infos with
  | nil => rfl
  | cons i infos ih =>
    have hrest := ih fun j hj => hlost j (List.mem_cons_of_mem i hj)
    rw [List.filterMap_cons, List.filterMap_cons]
    obtain hsame | hnone := h.served? i.signature
    · rw [hsame]
      cases m.served? i.signature with
      | none => exact hrest
      | some tx => rw [List.filter_cons, List.filter_cons, hrest]
    · rw [hnone]
      cases hm : m.served? i.signature with
      | none => exact hrest
      | some tx =>
        have hempty : f tx = [] := hlost i List.mem_cons_self tx hm hnone
        rw [List.filter_cons, hempty]
        exact hrest

theorem restate_congr (h : n.account = m.account) : n.restate = m.restate := by
  have hmarket : n.market? = m.market? := by
    funext k
    rw [market?, market?, h]
  have hdecimals : n.decimals? = m.decimals? := by
    funext k
    rw [decimals?, decimals?, h]
  funext p
  rw [restate, restate, hmarket, hdecimals]

end Node

namespace History

theorem value_transactions (n : Node) (infos : List SignatureInfo) :
    (transactions n infos).value = infos.filterMap fun i => n.served? i.signature := by
  induction infos with
  | nil => rfl
  | cons i infos ih =>
    have hcons : (transactions n (i :: infos)).value =
        (n.served? i.signature).toList ++ (transactions n infos).value := rfl
    rw [hcons, ih, List.filterMap_cons]
    cases n.served? i.signature <;> rfl

end History

namespace Reconstructor

def onNode (r : Reconstructor) (n : Node) : Reconstructor :=
  { r with client := { r.client with node := n } }

variable (r : Reconstructor) {n : Node}

theorem value_poolOrders (seed : Bytes) (limit : Int) :
    (r.poolOrders seed limit).run.value = (r.client.poolInfo seed).run.value.map fun info =>
      (r.orders info.tracked (r.history info.address none).value limit).value := by
  simp only [poolOrders, ExceptT.run_bind, Trace.value_bind]
  cases (r.client.poolInfo seed).run.value with
  | error f => rfl
  | ok info => rfl

def served (address : Key) : List Transaction :=
  Ranking.newestFirst Transaction.slot ((r.client.node.signatures address
    r.config.signatureLimit).filterMap fun i => r.client.node.served? i.signature)

theorem value_history (address : Key) : (r.history address none).value = r.served address := by
  rw [served, ← History.value_transactions]
  rfl

theorem value_orders_congr {pool : TrackedPool} {txs txs' : List Transaction}
    (hnode : n.account = r.client.node.account)
    (hevents : r.events pool txs = r.events pool txs') (limit : Int) :
    ((r.onNode n).orders pool txs limit).value = (r.orders pool txs' limit).value := by
  have hsame : (r.onNode n).events pool txs = r.events pool txs' := hevents
  rw [value_orders, value_orders, recent, recent, hsame]
  exact congrArg (List.filterMap · _) (Node.restate_congr hnode)

/-- On a node that lacks transactions of another, the latest orders of a pool are the same if the
transactions that it lacks hold no events of the pool. -/
theorem poolOrders_of_misses (h : n.Misses r.client.node) (seed : Bytes) (limit : Int)
    (hlost : ∀ info, (r.client.poolInfo seed).run.value = .ok info →
      ∀ i ∈ r.client.node.signatures info.address r.config.signatureLimit, ∀ tx,
        r.client.node.served? i.signature = some tx → n.served? i.signature = none →
        tx.events info.tracked r.config.poolProgram r.config.tokenProgram = []) :
    ((r.onNode n).poolOrders seed limit).run.value = (r.poolOrders seed limit).run.value := by
  have hconfig : (r.onNode n).client.config = r.client.config := rfl
  have hpool : (r.onNode n).client.poolInfo seed = r.client.poolInfo seed :=
    Client.poolInfo_congr h.account hconfig seed
  rw [value_poolOrders, value_poolOrders, hpool]
  cases hinfo : (r.client.poolInfo seed).run.value with
  | error f => simp only [Except.map]
  | ok info =>
    have hsigned : n.signatures info.address r.config.signatureLimit =
        r.client.node.signatures info.address r.config.signatureLimit := by rw [h.signatures]
    have hevents : r.events info.tracked ((r.onNode n).history info.address none).value =
        r.events info.tracked (r.history info.address none).value := by
      rw [value_history, value_history, served, served]
      apply Ranking.flatMap_newestFirst_congr
      rw [onNode, hsigned]
      exact h.filter_served _ (hlost info hinfo)
    exact congrArg Except.ok (r.value_orders_congr h.account hevents limit)

def signatureEnding (digit : Char) : Text := ⟨List.replicate 63 '1'.toNat ++ [digit.toNat]⟩

def strangers : Node where
  account _ := some (List.replicate 117 0)
  supply _ := ⟨"0", 0⟩
  balance _ := ⟨"0", 0⟩
  programAccounts _ := []
  signatures _ _ := [⟨signatureEnding '2', 8⟩, ⟨signatureEnding '1', 7⟩]
  transaction _ := .ok (some ⟨7, [.ofNat 1], [⟨0, [], [3]⟩], none⟩)

def fewerStrangers : Node :=
  { strangers with
    transaction s := if s.bytes = List.replicate 64 0 then .error "timeout"
      else strangers.transaction s }

theorem poolOrders_of_misses_strangers :
    let r : Reconstructor := ⟨⟨strangers, .standard⟩, .standard⟩
    let seed : Bytes := List.replicate 32 9
    (r.client.poolInfo seed).run.value.isOk ∧
      fewerStrangers.served? (signatureEnding '1') ≠ strangers.served? (signatureEnding '1') ∧
      ((r.onNode fewerStrangers).poolOrders seed 5).run.value =
        (r.poolOrders seed 5).run.value := by
  intro r seed
  have hmisses : fewerStrangers.Misses strangers := by
    refine ⟨rfl, rfl, rfl, rfl, rfl, fun s => ?_⟩
    by_cases hs : s.bytes = List.replicate 64 0
    · exact .inr (.inr ⟨"timeout", if_pos hs⟩)
    · exact .inl (if_neg hs)
  have hserved : strangers.served? (signatureEnding '1') =
      some ⟨signatureEnding '1', 7, [.ofNat 1], [⟨0, [], [3]⟩], []⟩ := by decide +kernel
  refine ⟨by decide +kernel, by decide +kernel, ?_⟩
  refine r.poolOrders_of_misses hmisses seed 5 fun info _ i hi tx htx hnone => ?_
  obtain rfl | rfl : i = ⟨signatureEnding '2', 8⟩ ∨ i = ⟨signatureEnding '1', 7⟩ := by
    simpa [r, strangers] using hi
  · have hkept : fewerStrangers.served? (signatureEnding '2') ≠ none := by decide +kernel
    exact absurd hnone hkept
  · cases htx.symm.trans hserved
    have hother : Key.ofNat 1 ≠ Config.standard.poolProgram := by decide +kernel
    simp [Transaction.events, Transaction.outcomes, Transaction.eventAt, Transaction.effectOn?,
      Compiled.programKey?, r, hother]

end Reconstructor

end SignalPool
