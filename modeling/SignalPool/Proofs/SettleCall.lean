import SignalPool.Proofs.AssetOrder

namespace SignalPool

namespace PoolInfo

variable {info : PoolInfo} {m : Key} {i : Nat}

/-- A mint comes at a place among the assets of a pool, and at no earlier one. -/
def FirstAt (info : PoolInfo) (m : Key) (i : Nat) : Prop :=
  info.assetMints[i]? = some m ∧ ∀ j < i, info.assetMints[j]? ≠ some m

theorem FirstAt.fits (h : info.FirstAt m i) (hsize : info.assetMints.length < Width.u64.bound) :
    (Field.word .u64 i).Fits := by
  obtain ⟨hlt, _⟩ := List.getElem?_eq_some_iff.mp h.1
  exact ⟨Int.natCast_nonneg i, Int.ofNat_lt.mpr (Nat.lt_trans hlt hsize)⟩

theorem firstAt_iff : info.FirstAt m i ↔ info.assetMints.idxOf? m = some i := by
  rw [List.idxOf?_eq_some_iff, FirstAt]
  constructor
  · rintro ⟨hm, hfirst⟩
    obtain ⟨hi, hm⟩ := List.getElem?_eq_some_iff.mp hm
    exact ⟨hi, hm, fun j hj hsame => hfirst j hj (List.getElem?_eq_some_iff.mpr ⟨_, hsame⟩)⟩
  · rintro ⟨hi, hm, hfirst⟩
    refine ⟨List.getElem?_eq_some_iff.mpr ⟨hi, hm⟩, fun j hj hsame => ?_⟩
    obtain ⟨_, hsame⟩ := List.getElem?_eq_some_iff.mp hsame
    exact hfirst j hj hsame

end PoolInfo

namespace Client

variable {c : Client} {seed : Bytes} {info : PoolInfo} {market m : Key} {data : Market}

theorem market_eq_ok_iff : (c.market market).run.value = .ok data ↔
    ∃ bytes, c.node.account market = some bytes ∧ Market.decode bytes market = .ok data := by
  simp only [Client.market, run_bind_eq_ok_iff, run_liftTrace, Trace.value_map, Except.ok.injEq,
    exists_eq_left', lift_eq_ok_iff, readMarket, read, account, Trace.ask, Trace.value_bind]
  cases c.node.account market with
  | none => simp
  | some bytes =>
    rw [Trace.value_pure, mapError_eq_ok_iff]
    simp

theorem assetIndex_of_mem (h : m ∈ info.assetMints) :
    ∃ i, assetIndex info m = .ok i ∧ info.FirstAt m i := by
  rw [assetIndex]
  cases hi : info.assetMints.idxOf? m with
  | none => exact absurd h (List.idxOf?_eq_none_iff.mp hi)
  | some i => exact ⟨i, rfl, PoolInfo.firstAt_iff.mpr hi⟩

theorem assetIndex_of_notMem (h : m ∉ info.assetMints) :
    assetIndex info m = .error (.foreignMint info.address m) := by
  rw [assetIndex, List.idxOf?_eq_none_iff.mpr h]

theorem exists_asset (hinfo : (c.poolInfo seed).run.value = .ok info)
    (hm : m ∈ info.assetMints) :
    ∃ k, c.tokenAccount info.address m = .ok k ∧
      (c.AccountsApart info.address info.assetMints → info.assetAccounts.get? k = some m) := by
  obtain ⟨slots, account, hholds⟩ := exists_holds hinfo
  obtain ⟨_, hinfo', _, _, hmints, htable⟩ := hholds.poolInfo
  cases hinfo.symm.trans hinfo'
  have hmem {m : Key} : m ∈ Pool.distinctMints slots ↔ m ∈ info.assetMints := by
    rw [hmints]
    exact List.mem_eraseDups
  refine ⟨account m, hholds.accounts m (hmem.mpr hm), fun hapart => ?_⟩
  have hdistinct : c.AccountsApart info.address (Pool.distinctMints slots) :=
    fun x hx y hy => hapart x (hmem.mp hx) y (hmem.mp hy)
  rw [htable, hholds.ofList_eq hdistinct]
  exact Table.get?_map (hmem.mpr hm) fun x hx =>
    hholds.account_inj hdistinct x hx m (hmem.mpr hm)

variable (c info data) in
/-- A call moves what a market pays out into the assets of a pool with the mints of the market: it
states where they come first, and names the accounts in which the pool holds them. -/
structure SettlesInto (call : Call) : Prop where
  indexes : ∃ pcIndex coinIndex : Nat,
    Instruction.decode Tag.settleFunds.code call.data =
        .ok ⟨info.header.seed, .settleFunds ⟨pcIndex, coinIndex⟩⟩ ∧
      info.FirstAt data.pcMint pcIndex ∧ info.FirstAt data.coinMint coinIndex
  accounts : ∃ coinAsset pcAsset,
    call.accounts[6]? = some (.writes coinAsset) ∧ call.accounts[7]? = some (.writes pcAsset) ∧
      (c.AccountsApart info.address info.assetMints →
        info.assetAccounts.get? coinAsset = some data.coinMint ∧
          info.assetAccounts.get? pcAsset = some data.pcMint)

section Outcomes

variable (hinfo : (c.poolInfo seed).run.value = .ok info)
  (hmarket : (c.market market).run.value = .ok data) (openOrders : Key) (referrer : Option Key)

include hinfo hmarket

theorem settleFunds_of_foreign_coin (hcoin : data.coinMint ∉ info.assetMints) :
    (c.settleFunds seed market openOrders referrer).run.value =
      .error (.foreignMint info.address data.coinMint) := by
  rw [settleFunds, value_bind_of_ok hinfo, value_bind_of_ok hmarket, assetIndex_of_notMem hcoin]
  exact value_bind_of_error rfl _

theorem settleFunds_of_foreign_pc (hcoin : data.coinMint ∈ info.assetMints)
    (hpc : data.pcMint ∉ info.assetMints) :
    (c.settleFunds seed market openOrders referrer).run.value =
      .error (.foreignMint info.address data.pcMint) := by
  obtain ⟨coinIndex, hindex, _⟩ := assetIndex_of_mem hcoin
  rw [settleFunds, value_bind_of_ok hinfo, value_bind_of_ok hmarket,
    value_bind_of_ok (lift_eq_ok_iff.mpr hindex), assetIndex_of_notMem hpc]
  exact value_bind_of_error rfl _

theorem exists_settleFunds {signer : Key} (hsize : info.assetMints.length < Width.u64.bound)
    (hsigner : Address.vaultSigner market data.vaultSignerNonce c.config.venueProgram = .ok signer)
    (hcoin : data.coinMint ∈ info.assetMints) (hpc : data.pcMint ∈ info.assetMints) :
    ∃ call, (c.settleFunds seed market openOrders referrer).run.value = .ok call ∧
      c.SettlesInto info data call := by
  obtain ⟨coinIndex, hcoinIndex, hcoinFirst⟩ := assetIndex_of_mem hcoin
  obtain ⟨pcIndex, hpcIndex, hpcFirst⟩ := assetIndex_of_mem hpc
  obtain ⟨coinAsset, hcoinAsset, hcoinHeld⟩ := exists_asset hinfo hcoin
  obtain ⟨pcAsset, hpcAsset, hpcHeld⟩ := exists_asset hinfo hpc
  let i : Instruction := ⟨info.header.seed, .settleFunds ⟨pcIndex, coinIndex⟩⟩
  have hfits : ∀ f ∈ i.action.fields, f.Fits :=
    List.forall_mem_cons.mpr
      ⟨hpcFirst.fits hsize, List.forall_mem_singleton.mpr (hcoinFirst.fits hsize)⟩
  obtain ⟨d, hd⟩ := Instruction.exists_encode_iff.mpr ⟨length_seed_of_poolInfo hinfo, hfits⟩
  have hnamed : i.action.Named := trivial
  have hdecode : Instruction.decode Tag.settleFunds.code d = .ok i :=
    Instruction.decode_eq_ok_iff.mpr ⟨Instruction.head?_of_encode hd,
      Instruction.body_of_encode (Action.reader_readsBack hnamed) hd,
      Instruction.seedOf_of_encode hd⟩
  simp only [settleFunds, value_bind_of_ok hinfo, value_bind_of_ok hmarket, run_bind_eq_ok_iff,
    lift_eq_ok_iff]
  refine ⟨_, ⟨coinIndex, hcoinIndex, pcIndex, hpcIndex, coinAsset, hcoinAsset, pcAsset, hpcAsset,
    signer, hsigner, Call.make_eq_ok_iff.mpr ⟨d, hd, rfl⟩⟩, ?_, ?_⟩
  · exact ⟨pcIndex, coinIndex, hdecode, hpcFirst, hcoinFirst⟩
  · exact ⟨coinAsset, pcAsset, rfl, rfl, fun hapart => ⟨hcoinHeld hapart, hpcHeld hapart⟩⟩

end Outcomes

/-- As long as the indexes of the assets fit their fields, what a market pays out can be settled
into a pool unless the pool lacks a mint of the market. The error then names that mint, the coin
mint first. Otherwise the call settles into the assets with these mints, also where the two are the
same or stand in several slots. -/
theorem settleFunds_consistent (hinfo : (c.poolInfo seed).run.value = .ok info)
    (hmarket : (c.market market).run.value = .ok data) {signer : Key}
    (hsigner : Address.vaultSigner market data.vaultSignerNonce c.config.venueProgram = .ok signer)
    (hsize : info.assetMints.length < Width.u64.bound) (openOrders : Key) (referrer : Option Key) :
    let settled := (c.settleFunds seed market openOrders referrer).run.value
    ((∃ m, settled = .error (.foreignMint info.address m)) ↔
        data.coinMint ∉ info.assetMints ∨ data.pcMint ∉ info.assetMints) ∧
      (data.coinMint ∉ info.assetMints →
        settled = .error (.foreignMint info.address data.coinMint)) ∧
      (data.coinMint ∈ info.assetMints → data.pcMint ∉ info.assetMints →
        settled = .error (.foreignMint info.address data.pcMint)) ∧
      (data.coinMint ∈ info.assetMints → data.pcMint ∈ info.assetMints →
        ∃ call, settled = .ok call ∧ c.SettlesInto info data call) := by
  intro settled
  have hcoin := settleFunds_of_foreign_coin hinfo hmarket openOrders referrer
  have hpc := settleFunds_of_foreign_pc hinfo hmarket openOrders referrer
  have hboth := exists_settleFunds hinfo hmarket openOrders referrer hsize hsigner
  refine ⟨⟨fun ⟨m, hm⟩ => ?_, fun hforeign => ?_⟩, hcoin, hpc, hboth⟩
  · refine Decidable.not_and_iff_or_not.mp fun ⟨hc, hp⟩ => ?_
    obtain ⟨call, hcall, _⟩ := hboth hc hp
    cases hcall.symm.trans hm
  · by_cases hc : data.coinMint ∈ info.assetMints
    · exact ⟨_, hpc hc (hforeign.resolve_left fun h => h hc)⟩
    · exact ⟨_, hcoin hc⟩

def bareMarket (coin pc : Key) : Bytes :=
  List.replicate 53 0 ++ coin.bytes ++ pc.bytes ++ List.replicate 248 0

def bareMarkets (k : Key) : Option Bytes :=
  if k = .ofNat 30 then some (bareMarket (.ofNat 8) (.ofNat 7))
  else if k = .ofNat 32 then some (bareMarket (.ofNat 7) (.ofNat 9))
  else none

theorem slottedPools_market {k coin pc : Key}
    (hk : bareMarkets k = some (bareMarket coin pc))
    (hdecode : (Market.decode (bareMarket coin pc) k).map
      (fun d => (d.coinMint, d.pcMint, d.vaultSignerNonce)) = .ok (coin, pc, 0))
    (hderives : (Address.vaultSigner k 0 Config.standard.venueProgram).isOk) :
    ∃ data signer, ((slottedPools bareMarkets).market k).run.value = .ok data ∧
      Address.vaultSigner k data.vaultSignerNonce Config.standard.venueProgram = .ok signer ∧
      data.coinMint = coin ∧ data.pcMint = pc := by
  obtain ⟨data, hdata, hfields⟩ := map_eq_ok_iff.mp hdecode
  obtain ⟨hcoin, hpc, hnonce⟩ : _ ∧ _ ∧ _ := by simpa only [Prod.mk.injEq] using hfields
  obtain ⟨signer, hsigner⟩ := isOk_iff.mp hderives
  have hstored : (slottedPools bareMarkets).node.account k = some (bareMarket coin pc) := by
    show (bareMarkets k).or (some slottedPool) = _
    rw [hk, Option.some_or]
  exact ⟨data, signer, market_eq_ok_iff.mpr ⟨_, hstored, hdata⟩, hnonce ▸ hsigner, hcoin, hpc⟩

theorem settleFunds_consistent_repeated :
    let c := slottedPools bareMarkets
    let seed : Bytes := List.replicate 32 1
    ∃ info, (c.poolInfo seed).run.value = .ok info ∧
      info.assetMints = [.ofNat 7, .ofNat 8, .ofNat 7] ∧
      (∃ call coinAsset pcAsset,
        (c.settleFunds seed (.ofNat 30) (.ofNat 4) none).run.value = .ok call ∧
        Instruction.decode Tag.settleFunds.code call.data =
          .ok ⟨info.header.seed, .settleFunds ⟨0, 1⟩⟩ ∧
        call.accounts[6]? = some (.writes coinAsset) ∧
        call.accounts[7]? = some (.writes pcAsset) ∧
        info.assetAccounts.get? coinAsset = some (.ofNat 8) ∧
        info.assetAccounts.get? pcAsset = some (.ofNat 7)) ∧
      (c.settleFunds seed (.ofNat 32) (.ofNat 4) none).run.value =
        .error (.foreignMint info.address (.ofNat 9)) := by
  intro c seed
  obtain ⟨address, mint, account, _, haddress, hslotted⟩ := slottedPools_hold
  have hnone : bareMarkets address = none := by
    have hpool : Address.pool seed Config.standard.poolProgram ≠ .ok (.ofNat 30) ∧
        Address.pool seed Config.standard.poolProgram ≠ .ok (.ofNat 32) := by decide +kernel
    rw [haddress] at hpool
    rw [bareMarkets, if_neg fun h => hpool.1 (congrArg _ h), if_neg fun h => hpool.2 (congrArg _ h)]
  obtain ⟨hholds, hapart, _⟩ := hslotted bareMarkets hnone
  obtain ⟨info, hinfo, rfl, rfl, hassets, _⟩ := hholds.poolInfo
  have hmints : info.assetMints = [.ofNat 7, .ofNat 8, .ofNat 7] := by
    rw [hassets]
    decide +kernel
  have hsize : info.assetMints.length < Width.u64.bound := by
    rw [hmints]
    decide
  refine ⟨info, hinfo, hmints, ?_, ?_⟩
  · obtain ⟨data, signer, hmarket, hsigner, hcoin, hpc⟩ :=
      slottedPools_market (k := .ofNat 30) rfl (by decide +kernel) (by decide +kernel)
    obtain ⟨_, _, _, hboth⟩ := settleFunds_consistent hinfo hmarket hsigner hsize (.ofNat 4) none
    rw [hcoin, hpc, hmints] at hboth
    obtain ⟨call, hcall, hindexes, haccounts⟩ := hboth (by decide +kernel) (by decide +kernel)
    obtain ⟨pcIndex, coinIndex, hdecode, hpcFirst, hcoinFirst⟩ := hindexes
    obtain ⟨coinAsset, pcAsset, hcoinAsset, hpcAsset, hheld⟩ := haccounts
    rw [PoolInfo.firstAt_iff, hmints, hpc] at hpcFirst
    rw [PoolInfo.firstAt_iff, hmints, hcoin] at hcoinFirst
    rw [hcoin, hpc] at hheld
    have hpcIndex : [Key.ofNat 7, .ofNat 8, .ofNat 7].idxOf? (.ofNat 7) = some 0 := by
      decide +kernel
    have hcoinIndex : [Key.ofNat 7, .ofNat 8, .ofNat 7].idxOf? (.ofNat 8) = some 1 := by
      decide +kernel
    cases hpcIndex.symm.trans hpcFirst
    cases hcoinIndex.symm.trans hcoinFirst
    have hheld := hheld fun m hm m' hm' => hapart m (List.mem_eraseDups.mpr (hassets ▸ hm)) m'
      (List.mem_eraseDups.mpr (hassets ▸ hm'))
    exact ⟨call, coinAsset, pcAsset, hcall, hdecode, hcoinAsset, hpcAsset, hheld.1, hheld.2⟩
  · obtain ⟨data, signer, hmarket, hsigner, hcoin, hpc⟩ :=
      slottedPools_market (k := .ofNat 32) rfl (by decide +kernel) (by decide +kernel)
    obtain ⟨_, _, hforeign, _⟩ :=
      settleFunds_consistent hinfo hmarket hsigner hsize (.ofNat 4) none
    rw [hcoin, hpc, hmints] at hforeign
    exact hforeign (by decide +kernel) (by decide +kernel)

end Client

end SignalPool
