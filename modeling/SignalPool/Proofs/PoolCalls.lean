import SignalPool.Proofs.PoolFetch
import SignalPool.Proofs.Recognition

namespace SignalPool

inductive PoolCall where
  | deposit (sourceOwner : Key) (sourceAssets : List Key) (poolTokens : Int)
  | collectFees
  | settleFunds (market openOrders : Key) (referrer : Option Key)

namespace PoolCall

def build (c : Client) (seed : Bytes) : PoolCall → Client.Run Call
  | deposit sourceOwner sourceAssets poolTokens =>
    c.deposit seed sourceOwner sourceAssets poolTokens
  | collectFees => c.collectFees seed
  | settleFunds market openOrders referrer => c.settleFunds seed market openOrders referrer

def poolPlace : PoolCall → Nat
  | deposit .. => 6
  | collectFees | settleFunds .. => 2

variable {c : Client} {seed : Bytes} {b : PoolCall} {call : Call}

theorem exists_poolInfo_of_build (h : (b.build c seed).run.value = .ok call) :
    ∃ info accounts action, (c.poolInfo seed).run.value = .ok info ∧
      accounts[b.poolPlace]?.map AccountUse.key = some info.address ∧
      Call.make c.config.poolProgram accounts ⟨info.header.seed, action⟩ = .ok call := by
  cases b with
  | deposit sourceOwner sourceAssets poolTokens =>
    simp only [build, Client.deposit, Client.run_bind_eq_ok_iff, Client.lift_eq_ok_iff] at h
    obtain ⟨info, hinfo, _, _, _, _, _, _, _, _, hcall⟩ := h
    exact ⟨info, _, _, hinfo, rfl, hcall⟩
  | collectFees =>
    simp only [build, Client.collectFees, Client.run_bind_eq_ok_iff, Client.lift_eq_ok_iff] at h
    obtain ⟨info, hinfo, _, _, _, _, _, _, hcall⟩ := h
    exact ⟨info, _, _, hinfo, rfl, hcall⟩
  | settleFunds market openOrders referrer =>
    simp only [build, Client.settleFunds, Client.run_bind_eq_ok_iff, Client.lift_eq_ok_iff] at h
    obtain ⟨info, hinfo, _, _, _, _, _, _, _, _, _, _, _, _, hcall⟩ := h
    exact ⟨info, _, _, hinfo, rfl, hcall⟩

/-- A call names the account of the requested pool, but carries the seed that is written there. -/
theorem seedOf_build (h : (b.build c seed).run.value = .ok call) :
    ∃ address data, Address.pool seed c.config.poolProgram = .ok address ∧
      c.node.account address = some data ∧
      call.accounts[b.poolPlace]?.map AccountUse.key = some address ∧
      Instruction.seedOf call.data = (data.drop 32).take 32 := by
  obtain ⟨info, accounts, action, hinfo, hplace, hcall⟩ := exists_poolInfo_of_build h
  obtain ⟨address, data, state, _, _, haddress, hdata, hstate, _, _, rfl⟩ :=
    Client.poolInfo_eq_ok_iff.mp hinfo
  obtain ⟨d, hd, rfl⟩ := Call.make_eq_ok_iff.mp hcall
  have hheader : state.header.seed = (data.drop 32).take 32 :=
    Pool.Header.seed_of_decode (Pool.State.header_of_decode hstate)
  exact ⟨address, data, haddress, hdata, hplace, (Instruction.seedOf_of_encode hd).trans hheader⟩

/-- The seed of a call is the requested one exactly if the account of the requested pool repeats
it. The account that the call names is then the one that its seed gives. -/
theorem seedOf_build_iff (h : (b.build c seed).run.value = .ok call) :
    ∃ address data, Address.pool seed c.config.poolProgram = .ok address ∧
      c.node.account address = some data ∧
      call.accounts[b.poolPlace]?.map AccountUse.key = some address ∧
      (Instruction.seedOf call.data = seed ↔ (data.drop 32).take 32 = seed) ∧
      ((data.drop 32).take 32 = seed →
        Address.pool (Instruction.seedOf call.data) c.config.poolProgram = .ok address) := by
  obtain ⟨address, data, haddress, hdata, hplace, hseed⟩ := seedOf_build h
  refine ⟨address, data, haddress, hdata, hplace, by rw [hseed], fun hrepeats => ?_⟩
  rw [hseed, hrepeats]
  exact haddress

def emptyPools (seed : Bytes) : Node where
  account _ := some (List.replicate 32 0 ++ seed ++ List.replicate 53 0)
  supply _ := ⟨"0", 0⟩
  balance _ := ⟨"0", 0⟩
  programAccounts _ := []
  signatures _ _ := []
  transaction _ := .ok none

theorem seedOf_build_iff_repeated :
    let seed : Bytes := List.replicate 32 1
    ∃ call, (collectFees.build ⟨emptyPools seed, .standard⟩ seed).run.value = .ok call ∧
      Instruction.seedOf call.data = seed ∧
      call.accounts[2]?.map AccountUse.key =
        (Address.pool (Instruction.seedOf call.data) Config.standard.poolProgram).toOption := by
  intro seed
  have hbuilt : (collectFees.build ⟨emptyPools seed, .standard⟩ seed).run.value.isOk := by
    decide +kernel
  obtain ⟨call, hcall⟩ := isOk_iff.mp hbuilt
  obtain ⟨address, data, _, hdata, hplace, hseed, hpool⟩ := seedOf_build_iff hcall
  have hrepeats : (data.drop 32).take 32 = seed := by
    cases hdata
    rfl
  refine ⟨call, hcall, hseed.mpr hrepeats, ?_⟩
  rw [hpool hrepeats]
  exact hplace

/-- Of an account that is allocated but not written yet the seed is all zeros, and a call carries
that one. -/
theorem unwritten_pool_seed :
    let seed : Bytes := List.replicate 32 1
    ∃ call, (collectFees.build ⟨emptyPools (List.replicate 32 0), .standard⟩ seed).run.value =
        .ok call ∧
      Instruction.seedOf call.data ≠ seed ∧
      call.accounts[2]?.map AccountUse.key ≠
        (Address.pool (Instruction.seedOf call.data) Config.standard.poolProgram).toOption := by
  intro seed
  have hbuilt : (collectFees.build ⟨emptyPools (List.replicate 32 0), .standard⟩
      seed).run.value.isOk := by decide +kernel
  obtain ⟨call, hcall⟩ := isOk_iff.mp hbuilt
  obtain ⟨address, data, haddress, hdata, hplace, hseed⟩ := seedOf_build hcall
  have hzeros : Instruction.seedOf call.data = List.replicate 32 0 := by
    cases hdata
    exact hseed
  refine ⟨call, hcall, ?_, ?_⟩
  · rw [hzeros]
    decide
  · have hother : (Address.pool seed Config.standard.poolProgram).toOption ≠
        (Address.pool (List.replicate 32 0) Config.standard.poolProgram).toOption := by
      decide +kernel
    rw [hzeros]
    rw [haddress] at hother
    exact fun h => hother (hplace.symm.trans h)

end PoolCall

end SignalPool
