import SignalPool.Proofs.PartialHistory

namespace SignalPool

namespace History

variable {n : Node}

theorem warnings_transaction (signature : Text) : (transaction n signature).warnings = [] := by
  rw [transaction]
  cases Signature.parse signature with
  | error f => rfl
  | ok s => rfl

theorem warnings_transactions (infos : List SignatureInfo) :
    (transactions n infos).warnings = infos.flatMap fun i =>
      (kept i.signature (transaction n i.signature).value).2 := by
  induction infos with
  | nil => rfl
  | cons i infos ih =>
    rw [transactions, Trace.warnings_bind, warnings_transaction, List.nil_append,
      List.flatMap_cons, ← ih]
    simp [Trace.warn]

theorem warnings_fetch (address : Key) (limit : Int) :
    (fetch n address limit).warnings =
      (transactions n (n.signatures address limit)).warnings := by
  simp [fetch, signatures, Trace.ask]

theorem kept_spec (signature : Text) (answer : Except TransactionFault (Option Transaction)) :
    (∃ tx, kept signature answer = (some tx, [])) ∨
      ∃ f, kept signature answer = (none, [.transactionLost signature f]) := by
  obtain f | _ | tx := answer
  · exact .inr ⟨some f, rfl⟩
  · exact .inr ⟨none, rfl⟩
  · exact .inl ⟨tx, rfl⟩

theorem lost_of_mem_warnings_fetch {address : Key} {limit : Int} {w : Warning}
    (h : w ∈ (fetch n address limit).warnings) :
    ∃ signature f, w = .transactionLost signature f := by
  rw [warnings_fetch, warnings_transactions] at h
  obtain ⟨i, _, hw⟩ := List.mem_flatMap.mp h
  obtain ⟨tx, hkept⟩ | ⟨f, hkept⟩ := kept_spec i.signature (transaction n i.signature).value
  · rw [hkept] at hw
    cases hw
  · rw [hkept] at hw
    exact ⟨_, _, List.mem_singleton.mp hw⟩

theorem lost_of_served?_eq_none {address : Key} {limit : Int} {i : SignatureInfo}
    (hi : i ∈ n.signatures address limit) (hnone : n.served? i.signature = none) :
    ∃ f, .transactionLost i.signature f ∈ (fetch n address limit).warnings := by
  rw [warnings_fetch, warnings_transactions]
  obtain ⟨tx, hkept⟩ | ⟨f, hkept⟩ := kept_spec i.signature (transaction n i.signature).value
  · rw [Node.served?, hkept] at hnone
    cases hnone
  · refine ⟨f, List.mem_flatMap.mpr ⟨i, hi, ?_⟩⟩
    rw [hkept]
    exact List.mem_singleton_self _

end History

namespace Reconstructor

variable (r : Reconstructor) (seed : Bytes) (limit : Int)

theorem poolOrders_eq_error_iff {f : Client.Fault} :
    (r.poolOrders seed limit).run.value = .error f ↔
      (r.client.poolInfo seed).run.value = .error f := by
  rw [value_poolOrders]
  cases (r.client.poolInfo seed).run.value with
  | error g => simp [Except.map]
  | ok info => simp [Except.map]

theorem poolOrders_of_poolInfo {info : PoolInfo}
    (h : (r.client.poolInfo seed).run.value = .ok info) :
    (r.poolOrders seed limit).run.value =
      .ok ((r.recent info.tracked (r.served info.address) limit).filterMap
        r.client.node.restate) := by
  rw [value_poolOrders, h, Except.map, value_orders, value_history]

theorem requests_of_error {f : Client.Fault} (h : (r.poolOrders seed limit).run.value = .error f)
    {q : Request} (hq : q ∈ (r.poolOrders seed limit).run.requests) :
    ∃ address, Address.pool seed r.client.config.poolProgram = .ok address ∧
      q = .account address := by
  rw [poolOrders_eq_error_iff] at h
  obtain hq | ⟨info, hinfo, _⟩ := Client.mem_requests_bind.mp hq
  · exact Client.mem_requests_poolInfo hq
  · cases h.symm.trans hinfo

theorem mem_warnings_poolOrders {w : Warning} :
    w ∈ (r.poolOrders seed limit).run.warnings ↔
      ∃ info, (r.client.poolInfo seed).run.value = .ok info ∧
        (w ∈ (r.history info.address none).warnings ∨
          w ∈ (r.orders info.tracked (r.history info.address none).value limit).warnings) := by
  simp only [poolOrders, Client.mem_warnings_bind, Client.warnings_poolInfo, Client.run_liftTrace,
    Trace.warnings_map, Trace.value_map, Except.ok.injEq, exists_eq_left', List.not_mem_nil,
    false_or]

theorem lost_of_poolInfo {info : PoolInfo} (h : (r.client.poolInfo seed).run.value = .ok info)
    {i : SignatureInfo}
    (hi : i ∈ r.client.node.signatures info.address r.config.signatureLimit)
    (hnone : r.client.node.served? i.signature = none) :
    ∃ f, .transactionLost i.signature f ∈ (r.poolOrders seed limit).run.warnings := by
  obtain ⟨f, hf⟩ := History.lost_of_served?_eq_none hi hnone
  exact ⟨f, (r.mem_warnings_poolOrders seed limit).mpr ⟨info, h, .inl hf⟩⟩

theorem decimalFault_notMem_warnings_poolOrders (signature : Text) (g : Decimal.Fault) :
    Warning.orderSkipped signature (.decimal g) ∉ (r.poolOrders seed limit).run.warnings := by
  intro h
  obtain ⟨info, _, hhistory | horders⟩ := (r.mem_warnings_poolOrders seed limit).mp h
  · obtain ⟨_, _, hlost⟩ := History.lost_of_mem_warnings_fetch hhistory
    cases hlost
  · exact r.decimalFault_notMem_warnings info.tracked _ limit signature g horders

/-- Only a pool that is not found is fatal, and then neither signatures nor transactions were asked
for. Of a pool that is found the orders that can be restated come back, from the transactions that
the node has; the others are reported as lost. An order is never left out because its arithmetic
failed. -/
theorem poolOrders_contained :
    (∀ f, (r.poolOrders seed limit).run.value = .error f ↔
      (r.client.poolInfo seed).run.value = .error f) ∧
    (∀ f, (r.poolOrders seed limit).run.value = .error f →
      ∀ q ∈ (r.poolOrders seed limit).run.requests,
        ∃ address, Address.pool seed r.client.config.poolProgram = .ok address ∧
          q = .account address) ∧
    (∀ info, (r.client.poolInfo seed).run.value = .ok info →
      (r.poolOrders seed limit).run.value =
          .ok ((r.recent info.tracked (r.served info.address) limit).filterMap
            r.client.node.restate) ∧
        ∀ i ∈ r.client.node.signatures info.address r.config.signatureLimit,
          r.client.node.served? i.signature = none →
            ∃ f, .transactionLost i.signature f ∈ (r.poolOrders seed limit).run.warnings) ∧
    ∀ signature g,
      Warning.orderSkipped signature (.decimal g) ∉ (r.poolOrders seed limit).run.warnings := by
  refine ⟨fun _ => r.poolOrders_eq_error_iff seed limit, ?_, ?_,
    r.decimalFault_notMem_warnings_poolOrders seed limit⟩
  · exact fun _ h _ hq => r.requests_of_error seed limit h hq
  · intro info h
    exact ⟨r.poolOrders_of_poolInfo seed limit h, fun _ => r.lost_of_poolInfo seed limit h⟩

end Reconstructor

end SignalPool
