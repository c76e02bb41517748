import SignalPool.Proofs.Containment

namespace SignalPool

namespace History

variable {signature : Text} {tx : Transaction}

theorem transactionOf_eq_some_iff {answer : Except Text (Option Fetched)} :
    transactionOf signature answer = .ok (some tx) ↔
      ∃ fetched, answer = .ok (some fetched) ∧ fetched.toTransaction signature = .ok tx := by
  obtain reason | _ | fetched := answer
  · simp [transactionOf]
  · simp [transactionOf]
  · cases h : fetched.toTransaction signature with
    | error f => simp [transactionOf, h, Except.map, Except.mapError]
    | ok tx' => simp [transactionOf, h, Except.map, Except.mapError]

theorem signature_of_toTransaction {fetched : Fetched}
    (h : fetched.toTransaction signature = .ok tx) : tx.signature = signature := by
  obtain ⟨inner, _, htx⟩ := bind_eq_ok_iff.mp h
  cases htx
  rfl

theorem signature_of_transaction {n : Node}
    (h : (transaction n signature).value = .ok (some tx)) : tx.signature = signature := by
  rw [transaction] at h
  cases hs : Signature.parse signature with
  | error f =>
    rw [hs] at h
    cases h
  | ok s =>
    rw [hs] at h
    obtain ⟨fetched, _, htx⟩ := transactionOf_eq_some_iff.mp h
    exact signature_of_toTransaction htx

end History

namespace Node

variable {n m : Node} {signature : Text} {tx : Transaction}

theorem served?_eq_some_iff :
    n.served? signature = some tx ↔ (History.transaction n signature).value = .ok (some tx) := by
  rw [served?]
  obtain f | _ | tx' := (History.transaction n signature).value
  · simp [History.kept]
  · simp [History.kept]
  · simp [History.kept]

theorem Misses.served?_eq_filter (h : n.Misses m) (signature : Text) :
    n.served? signature =
      (m.served? signature).filter fun tx => (n.served? tx.signature).isSome := by
  cases hm : m.served? signature with
  | none =>
    obtain hsame | hnone := h.served? signature
    · exact hsame.trans hm
    · exact hnone
  | some tx =>
    have hsigned : tx.signature = signature :=
      History.signature_of_transaction (served?_eq_some_iff.mp hm)
    obtain hsame | hnone := h.served? signature
    · simp [Option.filter, hsigned, hsame, hm]
    · simp [Option.filter, hsigned, hnone]

/-- The transactions that a node has under some signatures, each with the place of its
signature. -/
def located (n : Node) (infos : List SignatureInfo) : List (Nat × Transaction) :=
  infos.zipIdx.filterMap fun e => (n.served? e.1.signature).map (Prod.mk e.2)

theorem map_snd_located (n : Node) (infos : List SignatureInfo) :
    (n.located infos).map Prod.snd = infos.filterMap fun i => n.served? i.signature := by
  calc (n.located infos).map Prod.snd
    _ = infos.zipIdx.filterMap fun e => n.served? e.1.signature := by
        rw [located, List.map_filterMap]
        simp [Function.comp_def]
    _ = (infos.zipIdx.map Prod.fst).filterMap fun i => n.served? i.signature := by
        rw [List.filterMap_map, Function.comp_def]
    _ = _ := by rw [List.zipIdx_map_fst]

theorem mem_located {infos : List SignatureInfo} {place : Nat} :
    (place, tx) ∈ n.located infos ↔ ∃ i, infos[place]? = some i ∧
      (History.transaction n i.signature).value = .ok (some tx) := by
  simp only [located, List.mem_filterMap, Option.map_eq_some_iff, Prod.mk.injEq, Prod.exists,
    List.mem_zipIdx_iff_getElem?, served?_eq_some_iff]
  constructor
  · rintro ⟨i, place', hi, tx', htx, rfl, rfl⟩
    exact ⟨i, hi, htx⟩
  · rintro ⟨i, hi, htx⟩
    exact ⟨i, place, hi, tx, htx, rfl, rfl⟩

theorem pairwise_located (n : Node) (infos : List SignatureInfo) :
    (n.located infos).Pairwise fun a b => a.1 < b.1 := by
  have hplaces : infos.zipIdx.Pairwise fun a b => a.2 < b.2 := by
    apply List.pairwise_map.mp
    rw [List.zipIdx_map_snd]
    exact List.pairwise_lt_range'
  refine List.Pairwise.filterMap _ ?_ hplaces
  rintro e e' hlt a ha b hb
  obtain ⟨_, _, rfl⟩ := Option.map_eq_some_iff.mp ha
  obtain ⟨_, _, rfl⟩ := Option.map_eq_some_iff.mp hb
  exact hlt

/-- The node lists the newest signatures of a ledger, as many as it is asked for. -/
def Lists (n : Node) (ledger : Key → List SignatureInfo) : Prop :=
  ∀ address limit, 0 ≤ limit → n.signatures address limit = (ledger address).take limit.toNat

end Node

namespace Snapshot

theorem lists_node (s : Snapshot) : s.node.Lists fun _ => s.history := fun _ _ h => if_pos h

theorem misses_node (s : Snapshot) (hs : s.failures = []) (failures : Table Text Text) :
    { s with failures }.node.Misses s.node := by
  refine ⟨rfl, rfl, rfl, rfl, rfl, fun signature => ?_⟩
  simp only [node, hs, Table.get?]
  cases failures.get? signature.text with
  | none => exact .inl rfl
  | some reason => exact .inr (.inr ⟨reason, rfl⟩)

end Snapshot

namespace History

variable (n : Node) (address : Key) (limit : Int)

/-- The first of two located transactions comes first: by its slot, and in one slot by the place of
its signature. -/
def Precedes (a b : Nat × Transaction) : Prop :=
  b.2.slot < a.2.slot ∨ b.2.slot = a.2.slot ∧ a.1 < b.1

theorem value_fetch : (fetch n address limit).value = Ranking.newestFirst Transaction.slot
    ((n.signatures address limit).filterMap fun i => n.served? i.signature) := by
  rw [← value_transactions]
  rfl

theorem exists_located_fetch :
    ∃ found : List (Nat × Transaction), (fetch n address limit).value = found.map Prod.snd ∧
      found.Pairwise Precedes ∧ found.Perm (n.located (n.signatures address limit)) := by
  refine ⟨Ranking.newestFirst (fun e => e.2.slot) (n.located (n.signatures address limit)), ?_,
    ?_, Ranking.perm_newestFirst _ _⟩
  · rw [Ranking.map_newestFirst Transaction.slot Prod.snd, Node.map_snd_located, value_fetch]
  · have hslots := Ranking.pairwise_newestFirst (fun e : Nat × Transaction => e.2.slot)
      (n.located (n.signatures address limit))
    have hties := Ranking.pairwise_newestFirst_tie (fun e : Nat × Transaction => e.2.slot)
      (n.pairwise_located (n.signatures address limit))
    refine (hslots.and hties).imp ?_
    rintro a b ⟨hslot, htie⟩
    obtain hlt | heq := Int.lt_or_eq_of_le hslot
    · exact .inl hlt
    · exact .inr ⟨heq, htie heq.symm⟩

theorem value_fetch_of_misses {m : Node} (h : n.Misses m) :
    (fetch n address limit).value =
      (fetch m address limit).value.filter fun tx => (n.served? tx.signature).isSome := by
  rw [value_fetch, value_fetch, ← Ranking.newestFirst_filter, List.filter_filterMap, h.signatures]
  exact congrArg _ (List.filterMap_congr fun i _ => h.served?_eq_filter i.signature)

theorem requests_transaction (signature : Text) : (transaction n signature).requests =
    ((Signature.parse signature).toOption.map .transaction).toList := by
  rw [transaction]
  cases Signature.parse signature with
  | error f => rfl
  | ok s => rfl

theorem requests_transactions (infos : List SignatureInfo) :
    (transactions n infos).requests =
      infos.filterMap fun i => (Signature.parse i.signature).toOption.map .transaction := by
  induction infos with
  | nil => rfl
  | cons i infos ih =>
    have hcons : (transactions n (i :: infos)).requests =
        (transaction n i.signature).requests ++ (transactions n infos).requests := by
      simp [transactions, Trace.warn]
    rw [hcons, requests_transaction, ih, List.filterMap_cons]
    cases Signature.parse i.signature with
    | error f => rfl
    | ok s => rfl

theorem requests_fetch : (fetch n address limit).requests = .signatures address limit ::
    (n.signatures address limit).filterMap fun i =>
      (Signature.parse i.signature).toOption.map .transaction := by
  rw [← requests_transactions n]
  simp [fetch, signatures, Trace.ask]

end History

namespace Reconstructor

variable (r : Reconstructor) (address : Key) (limit : Option Int)

/-- The history of an address holds what the node has of the signatures that it lists, one
transaction for each place there, by falling slot and then by place. A node that lacks some of the
transactions gives the same history without them. The node is asked once for its list, which has at
most as many signatures as the limit says, and once for each signature in it. -/
theorem history_ranked :
    let node := r.client.node
    let count := limit.getD r.config.signatureLimit
    let listed := node.signatures address count
    (∃ found : List (Nat × Transaction),
      (r.history address limit).value = found.map Prod.snd ∧
        found.Pairwise History.Precedes ∧
        ∀ place tx, (place, tx) ∈ found ↔ ∃ i, listed[place]? = some i ∧
          (History.transaction node i.signature).value = .ok (some tx)) ∧
      (∀ n : Node, n.Misses node → ((r.onNode n).history address limit).value =
        (r.history address limit).value.filter fun tx => (n.served? tx.signature).isSome) ∧
      (r.history address limit).requests = .signatures address count ::
        listed.filterMap (fun i => (Signature.parse i.signature).toOption.map .transaction) ∧
      ∀ ledger, node.Lists ledger → 0 ≤ count → listed = (ledger address).take count.toNat := by
  intro node count listed
  refine ⟨?_, ?_, History.requests_fetch node address count, fun _ h => h address count⟩
  · obtain ⟨found, hvalue, hranked, hperm⟩ := History.exists_located_fetch node address count
    refine ⟨found, hvalue, hranked, fun place tx => ?_⟩
    rw [hperm.mem_iff, Node.mem_located]
  · exact fun n h => History.value_fetch_of_misses n address count h

def repeatedHistory : Snapshot where
  accounts := []
  supply := ⟨"0", 0⟩
  balances := []
  history := ['1', '2', '3', '2', '4'].map fun digit => ⟨signatureEnding digit, 5⟩
  transactions := [('1', 5), ('2', 5), ('3', 9), ('4', 9)].map fun e =>
    (signatureEnding e.1, some ⟨e.2, [], [], none⟩)
  failures := []

theorem history_ranked_repeated :
    let r : Reconstructor := ⟨⟨repeatedHistory.node, .standard⟩, .standard⟩
    let fewer := { repeatedHistory with failures := [(signatureEnding '2', "timeout")] }.node
    fewer.Misses r.client.node ∧ r.client.node.Lists (fun _ => repeatedHistory.history) ∧
      (r.history (.ofNat 1) (some 4)).requests.length = 5 ∧
      (r.history (.ofNat 1) (some 4)).value.map Transaction.signature =
        ['3', '1', '2', '2'].map signatureEnding ∧
      ((r.onNode fewer).history (.ofNat 1) (some 4)).value.map Transaction.signature =
        ['3', '1'].map signatureEnding := by
  intro r fewer
  have hmisses : fewer.Misses r.client.node := repeatedHistory.misses_node rfl _
  have hlists : r.client.node.Lists _ := repeatedHistory.lists_node
  have hvalue : (r.history (.ofNat 1) (some 4)).value.map Transaction.signature =
      ['3', '1', '2', '2'].map signatureEnding := by decide +kernel
  obtain ⟨_, hfewer, hrequests, hlisted⟩ := r.history_ranked (.ofNat 1) (some 4)
  refine ⟨hmisses, hlists, ?_, hvalue, ?_⟩
  · rw [hrequests, hlisted _ hlists (by decide)]
    decide +kernel
  · rw [hfewer fewer hmisses]
    decide +kernel

end Reconstructor

end SignalPool
