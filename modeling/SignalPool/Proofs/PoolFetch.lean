import SignalPool.Client
import SignalPool.Proofs.PoolAccount

namespace SignalPool

namespace Client

section Runs

variable {α β ε : Type}

theorem run_bind_eq_ok_iff {x : Run α} {k : α → Run β} {b : β} :
    (x >>= k).run.value = .ok b ↔ ∃ a, x.run.value = .ok a ∧ (k a).run.value = .ok b := by
  rw [ExceptT.run_bind, Trace.value_bind]
  cases x.run.value with
  | error f => simp
  | ok a => simp

theorem lift_eq_ok_iff {cause : ε → Fault} {x : Except ε α} {a : α} :
    (lift cause x).run.value = .ok a ↔ x = .ok a :=
  mapError_eq_ok_iff

theorem value_bind_of_ok {x : Run α} {a : α} (h : x.run.value = .ok a) (k : α → Run β) :
    (x >>= k).run.value = (k a).run.value := by
  rw [ExceptT.run_bind, Trace.value_bind, h]

theorem value_bind_of_error {x : Run α} {f : Fault} (h : x.run.value = .error f) (k : α → Run β) :
    (x >>= k).run.value = .error f := by
  rw [ExceptT.run_bind, Trace.value_bind, h]
  rfl

theorem requests_bind_of_ok {x : Run α} {a : α} (h : x.run.value = .ok a) (k : α → Run β) :
    (x >>= k).run.requests = x.run.requests ++ (k a).run.requests := by
  rw [ExceptT.run_bind, Trace.requests_bind, h]

theorem requests_bind_of_error {x : Run α} {f : Fault} (h : x.run.value = .error f)
    (k : α → Run β) : (x >>= k).run.requests = x.run.requests := by
  rw [ExceptT.run_bind, Trace.requests_bind, h]
  exact List.append_nil _

theorem run_liftTrace (t : Trace α) : (ExceptT.lift t : Run α).run = .ok <$> t := rfl

theorem mem_requests_bind {x : Run α} {k : α → Run β} {q : Request} :
    q ∈ (x >>= k).run.requests ↔
      q ∈ x.run.requests ∨ ∃ a, x.run.value = .ok a ∧ q ∈ (k a).run.requests := by
  rw [ExceptT.run_bind, Trace.requests_bind, List.mem_append]
  cases x.run.value with
  | error f => simp
  | ok a => simp

theorem mem_warnings_bind {x : Run α} {k : α → Run β} {w : Warning} :
    w ∈ (x >>= k).run.warnings ↔
      w ∈ x.run.warnings ∨ ∃ a, x.run.value = .ok a ∧ w ∈ (k a).run.warnings := by
  rw [ExceptT.run_bind, Trace.warnings_bind, List.mem_append]
  cases x.run.value with
  | error f => simp
  | ok a => simp

@[simp] theorem requests_lift (cause : ε → Fault) (x : Except ε α) :
    (lift cause x).run.requests = [] := rfl

@[simp] theorem warnings_lift (cause : ε → Fault) (x : Except ε α) :
    (lift cause x).run.warnings = [] := rfl

/-- A run asks the node for some things in order: for all of them if it succeeds, and for the first
ones of them in any case. -/
structure Asks (x : Run α) (qs : List Request) : Prop where
  isPrefix : x.run.requests <+: qs
  all : ∀ a, x.run.value = .ok a → x.run.requests = qs

theorem Asks.pure (a : α) : Asks (pure a) [] := ⟨List.prefix_refl [], fun _ _ => rfl⟩

theorem Asks.lift (cause : ε → Fault) (x : Except ε α) : Asks (lift cause x) [] :=
  ⟨List.prefix_refl [], fun _ _ => rfl⟩

theorem Asks.ask (q : Request) (answer : α) : Asks (ExceptT.lift (Trace.ask q answer)) [q] :=
  ⟨List.prefix_refl [q], fun _ _ => rfl⟩

theorem Asks.bind {x : Run α} {k : α → Run β} {qs rs : List Request} (hx : Asks x qs)
    (hk : ∀ a, x.run.value = .ok a → Asks (k a) rs) : Asks (x >>= k) (qs ++ rs) := by
  cases h : x.run.value with
  | error f =>
    refine ⟨?_, fun b hb => ?_⟩
    · rw [requests_bind_of_error h]
      exact hx.isPrefix.trans (List.prefix_append qs rs)
    · rw [value_bind_of_error h] at hb
      cases hb
  | ok a =>
    refine ⟨?_, fun b hb => ?_⟩
    · rw [requests_bind_of_ok h, hx.all a h]
      exact (List.prefix_append_right_inj qs).mpr (hk a h).isPrefix
    · rw [value_bind_of_ok h] at hb
      rw [requests_bind_of_ok h, hx.all a h, (hk a h).all b hb]

end Runs

variable {c : Client} {seed : Bytes}

theorem poolStateOf_eq_ok_iff {address : Key} {answer : Option Bytes} {state : Pool.State} :
    poolStateOf address answer = .ok state ↔
      ∃ data, answer = some data ∧ Pool.State.decode data = .ok state := by
  cases answer with
  | none => simp [poolStateOf]
  | some data =>
    rw [poolStateOf]
    split
    · rename_i hshort
      refine iff_of_false nofun ?_
      rintro ⟨_, ⟨⟩, hstate⟩
      exact absurd (Pool.State.length_of_decode hstate) (Nat.not_le.mpr hshort)
    · rw [mapError_eq_ok_iff]
      simp

theorem poolState_eq_ok_iff {state : Pool.State} :
    (c.poolState seed).run.value = .ok state ↔
      ∃ address data, Address.pool seed c.config.poolProgram = .ok address ∧
        c.node.account address = some data ∧ Pool.State.decode data = .ok state := by
  simp only [poolState, run_bind_eq_ok_iff, lift_eq_ok_iff, run_liftTrace, Trace.value_map,
    Except.ok.injEq, exists_eq_left', poolStateOf_eq_ok_iff, account, Trace.ask,
    exists_and_left]

/-- A pool is found exactly if the account under its address decodes and the asset accounts and
the mint have addresses. -/
theorem poolInfo_eq_ok_iff {info : PoolInfo} :
    (c.poolInfo seed).run.value = .ok info ↔
      ∃ address data state accounts mint, Address.pool seed c.config.poolProgram = .ok address ∧
        c.node.account address = some data ∧ Pool.State.decode data = .ok state ∧
        c.assetAccounts address state.assets = .ok accounts ∧
        Address.poolMint seed c.config.poolProgram = .ok mint ∧
        info = { address, mint, header := state.header, markets := state.markets,
                 assetMints := state.assets, assetAccounts := Table.ofList accounts } := by
  simp only [poolInfo, run_bind_eq_ok_iff, lift_eq_ok_iff, poolState_eq_ok_iff]
  constructor
  · rintro ⟨state, ⟨address, data, haddress, hdata, hstate⟩, _, haddress', accounts, haccounts,
      mint, hmint, hinfo⟩
    cases haddress.symm.trans haddress'
    cases hinfo
    exact ⟨address, data, state, accounts, mint, haddress, hdata, hstate, haccounts, hmint, rfl⟩
  · rintro ⟨address, data, state, accounts, mint, haddress, hdata, hstate, haccounts, hmint, rfl⟩
    exact ⟨state, ⟨address, data, haddress, hdata, hstate⟩, address, haddress, accounts, haccounts,
      mint, hmint, rfl⟩

theorem mem_requests_poolInfo {q : Request} (h : q ∈ (c.poolInfo seed).run.requests) :
    ∃ address, Address.pool seed c.config.poolProgram = .ok address ∧ q = .account address := by
  simp only [poolInfo, poolState, mem_requests_bind, requests_lift, lift_eq_ok_iff, run_liftTrace,
    Trace.requests_map, account, Trace.ask, List.not_mem_nil, List.mem_singleton, false_or,
    or_false, and_false, exists_false, ExceptT.run_pure, Trace.requests_pure] at h
  obtain ⟨address, haddress, h⟩ := h
  exact ⟨address, haddress, by simpa using h⟩

theorem warnings_poolInfo : (c.poolInfo seed).run.warnings = [] := by
  refine List.eq_nil_iff_forall_not_mem.mpr fun w h => ?_
  simp only [poolInfo, poolState, mem_warnings_bind, warnings_lift, run_liftTrace,
    Trace.warnings_map, account, Trace.ask, List.not_mem_nil, or_false, and_false, exists_false,
    ExceptT.run_pure, Trace.warnings_pure] at h

theorem poolInfo_congr {c' : Client} (hnode : c.node.account = c'.node.account)
    (hconfig : c.config = c'.config) (seed : Bytes) : c.poolInfo seed = c'.poolInfo seed := by
  have haccounts (pool : Key) (mints : List Key) :
      c.assetAccounts pool mints = c'.assetAccounts pool mints := by
    induction mints with
    | nil => rfl
    | cons mint mints ih => simp only [assetAccounts, tokenAccount, hconfig, ih]
  simp only [poolInfo, poolState, account, hnode, hconfig, haccounts]

variable {address : Key}

theorem poolInfo_asks (h : Address.pool seed c.config.poolProgram = .ok address) :
    Asks (c.poolInfo seed) [.account address] := by
  have hstate : Asks (c.poolState seed) [.account address] := by
    refine (Asks.lift _ _).bind fun a ha => ?_
    cases h.symm.trans (lift_eq_ok_iff.mp ha)
    exact (Asks.ask (.account address) _).bind fun data _ => .lift _ _
  refine hstate.bind fun state _ => ?_
  refine (Asks.lift _ _).bind fun _ _ => ?_
  refine (Asks.lift _ _).bind fun accounts _ => ?_
  exact (Asks.lift _ _).bind fun mint _ => .pure _

theorem value_poolState (h : Address.pool seed c.config.poolProgram = .ok address) :
    (c.poolState seed).run.value = poolStateOf address (c.node.account address) := by
  have hlift :
      (lift .address (Address.pool seed c.config.poolProgram) : Run Key) = pure address := by
    rw [h]
    rfl
  rw [poolState, hlift, pure_bind]
  show (poolStateOf address (c.node.account address)).mapError id = _
  cases poolStateOf address (c.node.account address) <;> rfl

theorem exists_gap_of_error {answer : Option Bytes} {f : Fault}
    (h : poolStateOf address answer = .error f) : ∃ gap, f = .pool address gap := by
  cases answer with
  | none => exact ⟨.notFound, (Except.error.inj h).symm⟩
  | some data =>
    rw [poolStateOf] at h
    split at h
    · exact ⟨.tooShort data.length, (Except.error.inj h).symm⟩
    · cases hstate : Pool.State.decode data with
      | error g =>
        rw [hstate] at h
        exact ⟨.undecodable g, (Except.error.inj h).symm⟩
      | ok state =>
        rw [hstate] at h
        cases h

/-- A pool is found exactly if the account under its address is well formed. All that goes wrong
otherwise is said of the pool at that address. -/
theorem poolState_admits (h : Address.pool seed c.config.poolProgram = .ok address) :
    ((∃ state, (c.poolState seed).run.value = .ok state) ↔
        ∃ data, c.node.account address = some data ∧ Pool.State.WellFormed data) ∧
      ∀ f, (c.poolState seed).run.value = .error f → ∃ gap, f = .pool address gap := by
  rw [value_poolState h]
  refine ⟨?_, fun f hf => exists_gap_of_error hf⟩
  simp only [poolStateOf_eq_ok_iff, ← Pool.State.exists_decode_iff]
  constructor
  · rintro ⟨state, data, hdata, hstate⟩
    exact ⟨data, hdata, state, hstate⟩
  · rintro ⟨data, hdata, state, hstate⟩
    exact ⟨state, data, hdata, hstate⟩

def oneMarketPool (status : UInt8) : Bytes :=
  List.replicate 96 0 ++ [status, 1, 0] ++ List.replicate 18 0 ++ List.replicate 96 5

def oneMarketPools (status : UInt8) : Node where
  account _ := some (oneMarketPool status)
  supply _ := ⟨"0", 0⟩
  balance _ := ⟨"0", 0⟩
  programAccounts _ := []
  signatures _ _ := []
  transaction _ := .ok none

theorem poolState_admits_oneMarket :
    let seed : Bytes := List.replicate 32 9
    let c (status : UInt8) : Client := ⟨oneMarketPools status, .standard⟩
    ∃ address, Address.pool seed Config.standard.poolProgram = .ok address ∧
      (∃ state, ((c 0xbf).poolState seed).run.value = .ok state) ∧
      ∃ gap, ((c 0x7f).poolState seed).run.value = .error (.pool address gap) := by
  intro seed c
  have hpool : (Address.pool seed Config.standard.poolProgram).isOk := by decide +kernel
  obtain ⟨address, haddress⟩ := isOk_iff.mp hpool
  refine ⟨address, haddress, ?_, ?_⟩
  · have hwell : Pool.State.WellFormed (oneMarketPool 0xbf) := by
      constructor <;> decide +kernel
    exact (poolState_admits (c := c 0xbf) haddress).1.mpr ⟨_, rfl, hwell⟩
  · obtain ⟨hstate, hgap⟩ := poolState_admits (c := c 0x7f) haddress
    cases hvalue : ((c 0x7f).poolState seed).run.value with
    | error f =>
      obtain ⟨gap, rfl⟩ := hgap f hvalue
      exact ⟨gap, rfl⟩
    | ok state =>
      obtain ⟨data, ⟨⟩, hwell⟩ := hstate.mp ⟨state, hvalue⟩
      exact absurd rfl hwell.status.1

end Client

end SignalPool
