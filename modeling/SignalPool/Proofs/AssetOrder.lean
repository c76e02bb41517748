import SignalPool.Proofs.Accumulation
import SignalPool.Proofs.PoolFetch
import SignalPool.Proofs.Recognition

namespace SignalPool

theorem Key.exists_flatMap_bytes {data : Bytes} (h : data.length % 32 = 0) :
    ∃ ks : List Key, data = ks.flatMap Key.bytes := by
  obtain ⟨n, hn⟩ := Nat.dvd_of_mod_eq_zero h
  induction n generalizing data with
  | zero => exact ⟨[], List.eq_nil_of_length_eq_zero hn⟩
  | succ n ih =>
    have hfirst : 0 + 32 ≤ data.length := by omega
    have hrest : (data.drop 32).length = 32 * n := by
      rw [List.length_drop]
      omega
    obtain ⟨ks, hks⟩ := ih (Nat.mod_eq_zero_of_dvd ⟨n, hrest⟩) hrest
    refine ⟨data.keyAt 0 hfirst :: ks, ?_⟩
    rw [List.flatMap_cons, ← hks]
    exact (List.take_append_drop 32 data).symm

namespace Pool

def distinctMints (slots : List Key) : List Key := (slots.filter (· ≠ Key.zero)).eraseDups

namespace State

variable {data : Bytes} {slots : List Key}

def EndsIn (data : Bytes) (slots : List Key) : Prop :=
  data.drop (117 + 32 * data.numberAt 97 2) = slots.flatMap Key.bytes

theorem WellFormed.exists_slots (h : WellFormed data) : ∃ slots, EndsIn data slots := by
  apply Key.exists_flatMap_bytes
  have hmarkets := h.markets
  have hslots := h.slots
  rw [List.length_drop]
  omega

theorem assets_of_decode {state : State} (h : decode data = .ok state)
    (hslots : EndsIn data slots) : state.assets = slots.filter (· ≠ Key.zero) := by
  simp only [decode, bind_eq_ok_iff] at h
  obtain ⟨header, hheader, _, _, assets, hassets, hstate⟩ := h
  cases hstate
  have hplace : Header.size + header.marketCount.toNat * 32 = 117 + 32 * data.numberAt 97 2 := by
    rw [Header.marketCount_of_decode hheader, Int.toNat_natCast, Header.size, Nat.mul_comm]
  rw [hplace, hslots, decodeAssets_flatMap] at hassets
  exact (Except.ok.inj hassets).symm

end State

end Pool

namespace TokenBalance

structure Reads (b : TokenBalance) (m : Key) (raw : RawAmount) : Prop where
  mint : b.mint = m
  amount : Text.Numeral.parse raw.amount = .ok b.amount
  decimals : b.decimals = raw.decimals

theorem Reads.eq {b : TokenBalance} {m : Key} {raw : RawAmount} {n : Int} (h : b.Reads m raw)
    (hn : Text.Numeral.parse raw.amount = .ok n) : b = ⟨m, n, raw.decimals⟩ := by
  obtain ⟨rfl, hamount, hdecimals⟩ := h
  cases hn.symm.trans hamount
  rw [← hdecimals]

theorem exists_reads_iff {m : Key} {raw : RawAmount} :
    (∃ b : TokenBalance, b.Reads m raw) ↔ ∃ n, Text.Numeral.parse raw.amount = .ok n := by
  constructor
  · rintro ⟨b, h⟩
    exact ⟨b.amount, h.amount⟩
  · rintro ⟨n, h⟩
    exact ⟨⟨m, n, raw.decimals⟩, rfl, h, rfl⟩

end TokenBalance

namespace Client

variable (c : Client)

/-- Different mints have different accounts of an owner. -/
def AccountsApart (owner : Key) (mints : List Key) : Prop :=
  ∀ m ∈ mints, ∀ m' ∈ mints, c.tokenAccount owner m = c.tokenAccount owner m' → m = m'

/-- The node of a client has a pool with some asset slots, and everything that the client derives
for the pool has an address. -/
structure Holds (seed : Bytes) (address mint : Key) (slots : List Key) (account : Key → Key) :
    Prop where
  pool : Address.pool seed c.config.poolProgram = .ok address
  poolMint : Address.poolMint seed c.config.poolProgram = .ok mint
  stored : ∃ data, c.node.account address = some data ∧ Pool.State.WellFormed data ∧
    Pool.State.EndsIn data slots
  accounts : ∀ m ∈ Pool.distinctMints slots, c.tokenAccount address m = .ok (account m)

variable {c} {seed : Bytes} {address mint : Key} {slots mints : List Key} {account : Key → Key}
  {info : PoolInfo}

theorem assetAccounts_eq_map {pool : Key}
    (h : ∀ m ∈ mints, c.tokenAccount pool m = .ok (account m)) :
    c.assetAccounts pool mints = .ok (mints.map fun m => (account m, m)) := by
  induction mints with
  | nil => rfl
  | cons m mints ih =>
    obtain ⟨hm, hmints⟩ := List.forall_mem_cons.mp h
    rw [assetAccounts, hm, ih hmints]
    rfl

theorem tokenAccount_of_assetAccounts {pool : Key} {entries : List (Key × Key)}
    (h : c.assetAccounts pool mints = .ok entries) :
    ∀ m ∈ mints, ∃ k, c.tokenAccount pool m = .ok k := by
  induction mints generalizing entries with
  | nil => exact List.forall_mem_nil _
  | cons m mints ih =>
    rw [assetAccounts] at h
    obtain ⟨k, hk, h⟩ := bind_eq_ok_iff.mp h
    obtain ⟨rest, hrest, _⟩ := bind_eq_ok_iff.mp h
    exact List.forall_mem_cons.mpr ⟨⟨k, hk⟩, ih hrest⟩

theorem Holds.poolInfo (h : c.Holds seed address mint slots account) :
    ∃ info, (c.poolInfo seed).run.value = .ok info ∧ info.address = address ∧ info.mint = mint ∧
      info.assetMints = slots.filter (· ≠ Key.zero) ∧
      info.assetAccounts =
        Table.ofList ((slots.filter (· ≠ Key.zero)).map fun m => (account m, m)) := by
  obtain ⟨data, hdata, hwell, hslots⟩ := h.stored
  obtain ⟨state, hstate⟩ := Pool.State.exists_decode_iff.mpr hwell
  have hassets := Pool.State.assets_of_decode hstate hslots
  have haccounts : ∀ m ∈ state.assets, c.tokenAccount address m = .ok (account m) := by
    intro m hm
    rw [hassets] at hm
    exact h.accounts m (List.mem_eraseDups.mpr hm)
  have hinfo := poolInfo_eq_ok_iff.mpr ⟨address, data, state, _, mint, h.pool, hdata, hstate,
    assetAccounts_eq_map haccounts, h.poolMint, rfl⟩
  exact ⟨_, hinfo, rfl, rfl, hassets, by rw [hassets]⟩

theorem exists_holds (h : (c.poolInfo seed).run.value = .ok info) :
    ∃ slots account, c.Holds seed info.address info.mint slots account := by
  obtain ⟨address, data, state, accounts, mint, haddress, hdata, hstate, haccounts, hmint, rfl⟩ :=
    poolInfo_eq_ok_iff.mp h
  have hwell := Pool.State.exists_decode_iff.mp ⟨state, hstate⟩
  obtain ⟨slots, hslots⟩ := hwell.exists_slots
  refine ⟨slots, fun m => (c.tokenAccount address m).toOption.getD .zero, haddress, hmint,
    ⟨data, hdata, hwell, hslots⟩, fun m hm => ?_⟩
  have hasset : m ∈ state.assets := by
    rw [Pool.State.assets_of_decode hstate hslots]
    exact List.mem_eraseDups.mp hm
  obtain ⟨k, hk⟩ := tokenAccount_of_assetAccounts haccounts m hasset
  rw [hk]
  rfl

theorem balanceOf_eq_ok_iff {m : Key} {raw : RawAmount} {b : TokenBalance} :
    (balanceOf m raw).run.value = .ok b ↔ b.Reads m raw := by
  rw [balanceOf, run_bind_eq_ok_iff]
  simp only [lift_eq_ok_iff]
  constructor
  · rintro ⟨n, hn, h⟩
    cases h
    exact ⟨rfl, hn, rfl⟩
  · rintro ⟨rfl, hn, hdecimals⟩
    refine ⟨b.amount, hn, ?_⟩
    rw [← hdecimals]
    rfl

variable {entries : List (Key × Key)} {e : Key × Key} {bs : List TokenBalance}

theorem assetBalances_eq_ok_iff : (c.assetBalances entries).run.value = .ok bs ↔
    List.Forall₂ (fun e (b : TokenBalance) => b.Reads e.2 (c.node.balance e.1)) entries bs := by
  induction entries generalizing bs with
  | nil =>
    rw [List.forall₂_nil_left_iff]
    exact ⟨fun h => (Except.ok.inj h).symm, fun h => h ▸ rfl⟩
  | cons e entries ih =>
    simp only [assetBalances, run_bind_eq_ok_iff, run_liftTrace, Trace.value_map, Trace.ask,
      Except.ok.injEq, exists_eq_left', balanceOf_eq_ok_iff, ih, List.forall₂_cons_left_iff]
    constructor
    · rintro ⟨b, hb, bs', hbs, h⟩
      exact ⟨b, bs', hb, hbs, (Except.ok.inj h).symm⟩
    · rintro ⟨b, bs', hb, hbs, rfl⟩
      exact ⟨b, hb, bs', hbs, rfl⟩

theorem exists_assetBalances_iff : (∃ bs, (c.assetBalances entries).run.value = .ok bs) ↔
    ∀ e ∈ entries, ∃ n, Text.Numeral.parse (c.node.balance e.1).amount = .ok n := by
  simp only [assetBalances_eq_ok_iff]
  induction entries with
  | nil => simp
  | cons e entries ih =>
    rw [List.forall_mem_cons, ← ih, ← TokenBalance.exists_reads_iff]
    simp only [List.forall₂_cons_left_iff]
    constructor
    · rintro ⟨_, b, bs, hb, hbs, rfl⟩
      exact ⟨⟨b, hb⟩, bs, hbs⟩
    · rintro ⟨⟨b, hb⟩, bs, hbs⟩
      exact ⟨b :: bs, b, bs, hb, hbs, rfl⟩

theorem balanceOf_asks (m : Key) (raw : RawAmount) : Asks (balanceOf m raw) [] :=
  (Asks.lift _ _).bind fun _ _ => .pure _

theorem assetBalances_asks (c : Client) (entries : List (Key × Key)) :
    Asks (c.assetBalances entries) (entries.map fun e => .balance e.1) := by
  induction entries with
  | nil => exact .pure _
  | cons e entries ih =>
    refine (Asks.ask (.balance e.1) _).bind fun raw _ => ?_
    refine (balanceOf_asks e.2 raw).bind fun b _ => ?_
    rw [← List.append_nil (entries.map _)]
    exact ih.bind fun bs _ => .pure _

variable (c seed address mint mints account info) in
/-- The balances of a pool are asked for, and come, in the order of some mints. -/
structure BalancesInOrder : Prop where
  asks : Asks (c.poolBalances seed)
    ([.account address, .supply mint] ++ mints.map fun m => .balance (account m))
  returns : (∃ b, (c.poolBalances seed).run.value = .ok b) ↔
    (∃ n, Text.Numeral.parse (c.node.supply mint).amount = .ok n) ∧
      ∀ m ∈ mints, ∃ n, Text.Numeral.parse (c.node.balance (account m)).amount = .ok n
  entries : ∀ b, (c.poolBalances seed).run.value = .ok b →
    b.supply.Reads mint (c.node.supply mint) ∧
      List.Forall₂ (fun m (e : TokenBalance) => e.Reads m (c.node.balance (account m))) mints
        b.assets

variable (c seed mints account info) in
/-- A deposit names the asset accounts of a pool in the order of some mints. They are written, and
stand between seven accounts and the owner of the deposit, who signs. -/
structure DepositsInOrder (sourceOwner : Key) (sourceAssets : List Key) (poolTokens : Int) :
    Prop where
  returns : (∃ call, (c.deposit seed sourceOwner sourceAssets poolTokens).run.value = .ok call) ↔
    (Field.word .u64 poolTokens).Fits ∧
      ∀ owner ∈
          [sourceOwner, info.header.signalProvider, c.config.feeReceiver, c.config.buyAndBurn],
        ∃ k, c.tokenAccount owner info.mint = .ok k
  accounts : ∀ call, (c.deposit seed sourceOwner sourceAssets poolTokens).run.value = .ok call →
    call.accounts.drop 7 = mints.map (fun m => .writes (account m)) ++
      .signs sourceOwner :: sourceAssets.map .writes

theorem length_seed_of_poolInfo (h : (c.poolInfo seed).run.value = .ok info) :
    info.header.seed.length = 32 := by
  obtain ⟨_, data, state, _, _, _, _, hstate, _, _, rfl⟩ := poolInfo_eq_ok_iff.mp h
  have hheader := Pool.State.header_of_decode hstate
  have hlen := Pool.Header.length_of_decode hheader
  rw [Pool.Header.seed_of_decode hheader]
  exact Bytes.length_slice (Nat.le_trans (by decide) hlen)

theorem poolBalances_eq_ok_iff (h : (c.poolInfo seed).run.value = .ok info) {b : PoolBalances} :
    (c.poolBalances seed).run.value = .ok b ↔
      b.supply.Reads info.mint (c.node.supply info.mint) ∧
        (c.assetBalances info.assetAccounts).run.value = .ok b.assets := by
  simp only [poolBalances, value_bind_of_ok h, run_bind_eq_ok_iff, run_liftTrace, Trace.value_map,
    Trace.ask, Except.ok.injEq, exists_eq_left', balanceOf_eq_ok_iff]
  constructor
  · rintro ⟨supply, hsupply, assets, hassets, hb⟩
    cases hb
    exact ⟨hsupply, hassets⟩
  · rintro ⟨hsupply, hassets⟩
    exact ⟨b.supply, hsupply, b.assets, hassets, rfl⟩

theorem balancesInOrder (h : (c.poolInfo seed).run.value = .ok info)
    (htable : info.assetAccounts = mints.map fun m => (account m, m)) :
    c.BalancesInOrder seed info.address info.mint mints account where
  asks := by
    obtain ⟨_, _, hholds⟩ := exists_holds h
    refine (poolInfo_asks hholds.pool).bind fun i hi => ?_
    cases h.symm.trans hi
    refine (Asks.ask (.supply info.mint) _).bind fun raw _ => ?_
    refine (balanceOf_asks info.mint raw).bind fun supply _ => ?_
    have hasked : mints.map (fun m => Request.balance (account m)) =
        info.assetAccounts.map (fun e => .balance e.1) ++ [] := by
      rw [htable, List.map_map, List.append_nil]
      rfl
    rw [hasked]
    exact (assetBalances_asks c info.assetAccounts).bind fun assets _ => .pure _
  returns := by
    have hassets : (∃ bs, (c.assetBalances info.assetAccounts).run.value = .ok bs) ↔
        ∀ m ∈ mints, ∃ n, Text.Numeral.parse (c.node.balance (account m)).amount = .ok n := by
      rw [exists_assetBalances_iff, htable, List.forall_mem_map]
    rw [← hassets, ← TokenBalance.exists_reads_iff (m := info.mint)]
    simp only [poolBalances_eq_ok_iff h]
    constructor
    · rintro ⟨b, hsupply, hassets⟩
      exact ⟨⟨b.supply, hsupply⟩, b.assets, hassets⟩
    · rintro ⟨⟨supply, hsupply⟩, assets, hassets⟩
      exact ⟨⟨supply, assets⟩, hsupply, hassets⟩
  entries := by
    intro b hb
    obtain ⟨hsupply, hassets⟩ := (poolBalances_eq_ok_iff h).mp hb
    rw [assetBalances_eq_ok_iff, htable, List.forall₂_map_left_iff] at hassets
    exact ⟨hsupply, hassets⟩

theorem depositsInOrder (h : (c.poolInfo seed).run.value = .ok info)
    (htable : info.assetAccounts = mints.map fun m => (account m, m)) (sourceOwner : Key)
    (sourceAssets : List Key) (poolTokens : Int) :
    c.DepositsInOrder seed mints account info sourceOwner sourceAssets poolTokens where
  returns := by
    have hseed := length_seed_of_poolInfo h
    simp only [deposit, value_bind_of_ok h, run_bind_eq_ok_iff, lift_eq_ok_iff,
      List.forall_mem_cons, Call.deposit]
    constructor
    · rintro ⟨call, target, htarget, provider, hprovider, receiver, hreceiver, burn, hburn, hcall⟩
      obtain ⟨d, hd, _⟩ := Call.make_eq_ok_iff.mp hcall
      have hfits := (Instruction.exists_encode_iff.mp ⟨d, hd⟩).2
      exact ⟨hfits _ List.mem_cons_self, ⟨target, htarget⟩, ⟨provider, hprovider⟩,
        ⟨receiver, hreceiver⟩, ⟨burn, hburn⟩, List.forall_mem_nil _⟩
    · rintro ⟨hfits, ⟨target, htarget⟩, ⟨provider, hprovider⟩, ⟨receiver, hreceiver⟩,
        ⟨burn, hburn⟩, _⟩
      obtain ⟨d, hd⟩ := Instruction.exists_encode_iff (i := ⟨_, .deposit poolTokens⟩).mpr
        ⟨hseed, List.forall_mem_singleton.mpr hfits⟩
      exact ⟨_, target, htarget, provider, hprovider, receiver, hreceiver, burn, hburn,
        Call.make_eq_ok_iff.mpr ⟨d, hd, rfl⟩⟩
  accounts := by
    intro call hcall
    simp only [deposit, value_bind_of_ok h, run_bind_eq_ok_iff, lift_eq_ok_iff] at hcall
    obtain ⟨_, _, _, _, _, _, _, _, hcall⟩ := hcall
    obtain ⟨d, _, rfl⟩ := Call.make_eq_ok_iff.mp hcall
    have hkeys : info.assetAccounts.keys.map AccountUse.writes =
        mints.map fun m => .writes (account m) := by
      rw [htable, Table.keys, List.map_map, List.map_map]
      rfl
    rw [← hkeys]
    rfl

theorem Holds.account_inj (h : c.Holds seed address mint slots account)
    (hapart : c.AccountsApart address (Pool.distinctMints slots)) :
    ∀ m ∈ Pool.distinctMints slots, ∀ m' ∈ Pool.distinctMints slots,
      account m = account m' → m = m' := by
  intro m hm m' hm' hsame
  refine hapart m hm m' hm' ?_
  rw [h.accounts m hm, h.accounts m' hm', hsame]

theorem Holds.ofList_eq (h : c.Holds seed address mint slots account)
    (hapart : c.AccountsApart address (Pool.distinctMints slots)) :
    Table.ofList ((slots.filter (· ≠ Key.zero)).map fun m => (account m, m)) =
      (Pool.distinctMints slots).map fun m => (account m, m) := by
  refine Table.ofList_map account (fun m => m) fun m hm m' hm' => ?_
  exact h.account_inj hapart m (List.mem_eraseDups.mpr hm) m' (List.mem_eraseDups.mpr hm')

/-- Where different mints of a pool have different accounts, its mints stand in the order of their
first slots everywhere: in the table of its asset accounts, in its balances, and among the accounts
of a deposit. -/
theorem asset_order_kept (h : c.Holds seed address mint slots account)
    (hapart : c.AccountsApart address (Pool.distinctMints slots)) :
    let mints := Pool.distinctMints slots
    ∃ info, (c.poolInfo seed).run.value = .ok info ∧ info.address = address ∧ info.mint = mint ∧
      info.assetAccounts = mints.map (fun m => (account m, m)) ∧
      c.BalancesInOrder seed address mint mints account ∧
      ∀ sourceOwner sourceAssets poolTokens,
        c.DepositsInOrder seed mints account info sourceOwner sourceAssets poolTokens := by
  intro mints
  obtain ⟨info, hinfo, rfl, rfl, _, htable⟩ := h.poolInfo
  rw [h.ofList_eq hapart] at htable
  exact ⟨info, hinfo, rfl, rfl, htable, balancesInOrder hinfo htable,
    depositsInOrder hinfo htable⟩

def repeatedSlots : List Key := [.zero, .ofNat 7, .ofNat 8, .zero, .ofNat 7]

def slottedPool : Bytes :=
  List.replicate 64 0 ++ (Key.ofNat 1).bytes ++ List.replicate 21 0 ++
    repeatedSlots.flatMap Key.bytes

def slottedPools (others : Key → Option Bytes) : Client where
  node := {
    account k := (others k).or (some slottedPool)
    supply _ := ⟨"12", 6⟩
    balance _ := ⟨"34", 9⟩
    programAccounts _ := []
    signatures _ _ := []
    transaction _ := .ok none }
  config := { Config.standard with feeReceiver := .ofNat 1, buyAndBurn := .ofNat 1 }

theorem slottedPools_hold :
    let seed : Bytes := List.replicate 32 1
    ∃ address mint account owned, Address.pool seed Config.standard.poolProgram = .ok address ∧
      ∀ others, others address = none →
        let c := slottedPools others
        c.Holds seed address mint repeatedSlots account ∧
          c.AccountsApart address (Pool.distinctMints repeatedSlots) ∧
          c.tokenAccount (.ofNat 1) mint = .ok owned := by
  intro seed
  let c := slottedPools fun _ => none
  have hderived : (do
      let address ← Address.pool seed Config.standard.poolProgram
      let seven ← c.tokenAccount address (.ofNat 7)
      let eight ← c.tokenAccount address (.ofNat 8)
      let mint ← Address.poolMint seed Config.standard.poolProgram
      let _ ← c.tokenAccount (.ofNat 1) mint
      return decide (seven = eight)) = .ok false := by decide +kernel
  simp only [bind_eq_ok_iff] at hderived
  obtain ⟨address, haddress, seven, hseven, eight, height, mint, hmint, owned, howned, hdecide⟩ :=
    hderived
  have hmints : Pool.distinctMints repeatedSlots = [.ofNat 7, .ofNat 8] := by decide +kernel
  have hwell : Pool.State.WellFormed slottedPool := by constructor <;> decide +kernel
  have hslots : Pool.State.EndsIn slottedPool repeatedSlots := by
    rw [Pool.State.EndsIn]
    decide +kernel
  have hne : c.tokenAccount address (.ofNat 7) ≠ c.tokenAccount address (.ofNat 8) := by
    rw [hseven, height]
    exact fun h => of_decide_eq_false (Except.ok.inj hdecide) (Except.ok.inj h)
  refine ⟨address, mint, fun m => if m = .ofNat 7 then seven else eight, owned, haddress,
    fun others hothers => ⟨⟨haddress, hmint, ⟨slottedPool, ?_, hwell, hslots⟩, ?_⟩, ?_, howned⟩⟩
  · show (others address).or (some slottedPool) = some slottedPool
    rw [hothers, Option.none_or]
  · rw [hmints, List.forall_mem_cons, List.forall_mem_singleton, if_pos rfl,
      if_neg (by decide +kernel)]
    exact ⟨hseven, height⟩
  · rw [hmints]
    intro m hm m' hm' hsame
    obtain rfl | rfl := List.mem_pair.mp hm <;> obtain rfl | rfl := List.mem_pair.mp hm'
    · rfl
    · exact absurd hsame hne
    · exact absurd hsame.symm hne
    · rfl

theorem asset_order_kept_repeated :
    let c := slottedPools fun _ => none
    let seed : Bytes := List.replicate 32 1
    ∃ address mint seven eight, c.tokenAccount address (.ofNat 7) = .ok seven ∧
      c.tokenAccount address (.ofNat 8) = .ok eight ∧
      (∃ info, (c.poolInfo seed).run.value = .ok info ∧
        info.assetAccounts = [(seven, .ofNat 7), (eight, .ofNat 8)]) ∧
      (∃ b, (c.poolBalances seed).run.value = .ok b ∧
        b.assets = [⟨.ofNat 7, 34, 9⟩, ⟨.ofNat 8, 34, 9⟩] ∧
        (c.poolBalances seed).run.requests =
          [.account address, .supply mint, .balance seven, .balance eight]) ∧
      ∃ call, (c.deposit seed (.ofNat 1) [.ofNat 2] 5).run.value = .ok call ∧
        call.accounts.drop 7 =
          [.writes seven, .writes eight, .signs (.ofNat 1), .writes (.ofNat 2)] := by
  intro c seed
  obtain ⟨address, mint, account, owned, _, hslotted⟩ := slottedPools_hold
  obtain ⟨hholds, hapart, howned⟩ := hslotted (fun _ => none) rfl
  have hmints : Pool.distinctMints repeatedSlots = [.ofNat 7, .ofNat 8] := by decide +kernel
  have haccounts := hholds.accounts
  obtain ⟨info, hinfo, rfl, rfl, htable, hbalances, hdeposits⟩ := asset_order_kept hholds hapart
  rw [hmints] at htable hbalances hdeposits haccounts
  rw [List.forall_mem_cons, List.forall_mem_singleton] at haccounts
  obtain ⟨hseven, height⟩ := haccounts
  refine ⟨info.address, info.mint, account (.ofNat 7), account (.ofNat 8), hseven, height,
    ⟨info, hinfo, htable⟩, ?_, ?_⟩
  · have hsupply : Text.Numeral.parse "12" = .ok 12 := by decide +kernel
    have hparse : Text.Numeral.parse "34" = .ok 34 := by decide +kernel
    obtain ⟨b, hb⟩ := hbalances.returns.mpr ⟨⟨12, hsupply⟩, fun _ _ => ⟨34, hparse⟩⟩
    obtain ⟨_, hassets⟩ := hbalances.entries b hb
    obtain ⟨first, _, hfirst, hrest, hboth⟩ := List.forall₂_cons_left_iff.mp hassets
    obtain ⟨second, _, hsecond, hnil, rfl⟩ := List.forall₂_cons_left_iff.mp hrest
    cases hnil
    refine ⟨b, hb, ?_, hbalances.asks.all b hb⟩
    rw [hboth, hfirst.eq hparse, hsecond.eq hparse]
    rfl
  · have hprovider : info.header.signalProvider = .ofNat 1 := by
      obtain ⟨_, _, state, _, _, _, hdata, hstate, _, _, rfl⟩ := poolInfo_eq_ok_iff.mp hinfo
      cases hdata
      obtain ⟨_, _, _, hheader⟩ :=
        Pool.Header.decode_eq_ok_iff.mp (Pool.State.header_of_decode hstate)
      have hbytes : (slottedPool.drop 64).take 32 = (Key.ofNat 1).bytes := by decide +kernel
      rw [← hheader]
      exact Key.bytes_inj.mp hbytes
    have hdeposit := hdeposits (.ofNat 1) [.ofNat 2] 5
    have howners : ∀ owner ∈ [Key.ofNat 1, info.header.signalProvider, .ofNat 1, .ofNat 1],
        ∃ k, c.tokenAccount owner info.mint = .ok k := by
      simp only [hprovider, List.forall_mem_cons]
      exact ⟨⟨owned, howned⟩, ⟨owned, howned⟩, ⟨owned, howned⟩, ⟨owned, howned⟩, nofun⟩
    obtain ⟨call, hcall⟩ := hdeposit.returns.mpr ⟨by decide, howners⟩
    exact ⟨call, hcall, hdeposit.accounts call hcall⟩

end Client

end SignalPool
