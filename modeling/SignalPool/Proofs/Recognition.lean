import SignalPool.Instruction.Call
import SignalPool.Proofs.Canonical
import SignalPool.Proofs.Emission

namespace SignalPool

namespace Instruction

variable {i : Instruction} {d : Bytes}

theorem head?_of_encode (h : i.encode = .ok d) : d.head? = some i.tag.code := by
  obtain ⟨_, body, _, rfl⟩ := encode_eq_ok_iff.mp h
  rfl

theorem seedOf_of_encode (h : i.encode = .ok d) : seedOf d = i.seed := by
  obtain ⟨hs, body, _, rfl⟩ := encode_eq_ok_iff.mp h
  exact List.take_left' hs

theorem body_of_encode {α : Type} {r : Reader α} {a : α}
    (hr : r.ReadsBack [] i.action.fields a) (h : i.encode = .ok d) : i.tag.body r d = .ok a := by
  obtain ⟨hs, body, hb, rfl⟩ := encode_eq_ok_iff.mp h
  have hfull : i.tag.minSize ≤ (i.tag.code :: i.seed ++ body).length := by
    refine Nat.le_trans i.action.minSize_le ?_
    rw [← Field.length_of_encodeAll hb]
    simp only [List.cons_append, List.length_cons, List.length_append, hs]
    omega
  have hdrop : (i.tag.code :: i.seed ++ body).drop 33 = body ++ [] := by
    rw [List.append_nil]
    exact List.drop_left' (congrArg Nat.succ hs)
  refine Tag.body_eq_ok_iff.mpr ⟨hfull, ⟨33 + body.length, []⟩, ?_⟩
  rw [hdrop]
  exact hr 33 body hb

end Instruction

namespace OrderTerms

theorem decode_of_encode {terms : OrderTerms} {seed d : Bytes} (hn : terms.Named)
    (h : Instruction.encode ⟨seed, .createOrder terms⟩ = .ok d) : decode d = .ok terms := by
  have hexpect : Tag.expect Tag.createOrder.code d = .ok () := by
    obtain ⟨_, body, _, rfl⟩ := Instruction.encode_eq_ok_iff.mp h
    rfl
  rw [decode, hexpect]
  exact Instruction.body_of_encode (reader_readsBack hn []) h

end OrderTerms

namespace Call

theorem make_eq_ok_iff {program : Key} {accounts : List AccountUse} {i : Instruction}
    {call : Call} :
    make program accounts i = .ok call ↔ ∃ d, i.encode = .ok d ∧ call = ⟨program, accounts, d⟩ := by
  rw [make, bind_eq_ok_iff]
  constructor
  · rintro ⟨d, hd, h⟩
    cases h
    exact ⟨d, hd, rfl⟩
  · rintro ⟨d, hd, rfl⟩
    exact ⟨d, hd, rfl⟩

end Call

namespace Compiled

variable {c : Compiled} {keys : List Key} {call : Call}

/-- The compiled instruction stands for a call: its places lead to the keys of the call. -/
structure StandsFor (c : Compiled) (keys : List Key) (call : Call) : Prop where
  program : c.programKey? keys = some call.program
  accounts : c.accounts.map (keys[·]?) = call.accounts.map (some ·.key)
  data : c.data = call.data

theorem StandsFor.account? (h : c.StandsFor keys call) (position : Nat) :
    c.account? keys position = call.accounts[position]?.map AccountUse.key := by
  have hat := congrArg (·[position]?) h.accounts
  simp only [List.getElem?_map] at hat
  rw [Compiled.account?]
  cases hp : c.accounts[position]? with
  | none =>
    rw [hp] at hat
    have hnone : call.accounts[position]? = none := Option.map_eq_none_iff.mp hat.symm
    rw [hnone]
    rfl
  | some place =>
    rw [hp] at hat
    obtain ⟨a, ha, hk⟩ := Option.map_eq_some_iff.mp hat.symm
    rw [ha]
    exact hk.symm

end Compiled

namespace Transaction

variable {tx : Transaction} {pool : TrackedPool} {program tokenProgram : Key} {c : Compiled}
  {call : Call}

theorem effectOn?_of_standsFor {i : Instruction} {accounts : List AccountUse} {effect : Effect}
    (hcall : Call.make program accounts i = .ok call) (hc : c.StandsFor tx.keys call)
    (hseed : i.seed = pool.seed) (htag : effect.tag = i.tag) :
    tx.effectOn? pool program c = some effect := by
  obtain ⟨d, hd, rfl⟩ := Call.make_eq_ok_iff.mp hcall
  refine effectOn?_eq_some_iff.mpr ⟨hc.program, ?_, ?_⟩
  · rw [hc.data, Instruction.seedOf_of_encode hd, hseed]
  · rw [hc.data, Instruction.head?_of_encode hd, htag]

end Transaction

def Invoked.only {α : Type} (a : α) : Invoked α := ⟨[a], (by decide : 1 < Width.u64.bound)⟩

namespace Call

variable {pool : TrackedPool} {program tokenProgram : Key} {tx : Transaction} {place : Nat}
  {c : Compiled} {call : Call}

/-- The call as an instruction, for a table that lists its program and accounts after others. -/
def compiled (call : Call) (others : List Key) : Compiled where
  program := others.length
  accounts := List.range' (others.length + 1) call.accounts.length
  data := call.data

def alone (call : Call) (others : List Key) (inner : Invoked Compiled) : Transaction where
  signature := "a"
  slot := 5
  keys := others ++ call.program :: call.accounts.map AccountUse.key
  instructions := [call.compiled others]
  inner := [(0, inner)]

theorem standsFor_compiled (call : Call) (others : List Key) (inner : Invoked Compiled) :
    (call.compiled others).StandsFor (call.alone others inner).keys call where
  program := by simp [Compiled.programKey?, compiled, alone]
  accounts := by
    apply List.ext_getElem
    · simp [compiled]
    · intro n hn hn'
      have hlt : n < call.accounts.length := by simpa using hn'
      have hat : (call.alone others inner).keys[others.length + 1 + n]? =
          some call.accounts[n].key := by
        simp [alone, Nat.add_assoc, Nat.add_comm 1 n, hlt]
      simpa [compiled] using hat
  data := rfl

theorem createOrder_emits {terms : OrderTerms} {a : OrderAccounts} {t : Transfer}
    (hnamed : terms.Named) (hcall : createOrder program pool.seed terms a = .ok call)
    (hplace : tx.instructions[place]? = some c) (hc : c.StandsFor tx.keys call)
    (ht : (tx.innerOf place).findSome? (·.transfer? tx.keys tokenProgram) = some t) :
    tx.Emits pool program tokenProgram place (.order {
      signature := tx.signature, slot := tx.slot, openOrders := a.openOrders,
      market := (pool.markets[terms.marketIndex.toNat]?).getD a.market,
      seed := pool.seed, terms, transferred := t.amount }) := by
  obtain ⟨d, hd, rfl⟩ := make_eq_ok_iff.mp hcall
  have heffect : tx.effectOn? pool program c = some .order :=
    Transaction.effectOn?_of_standsFor hcall hc rfl rfl
  have hterms : OrderTerms.decode c.data = .ok terms := by
    rw [hc.data]
    exact OrderTerms.decode_of_encode hnamed hd
  have hopen : c.account? tx.keys OrderEvent.openOrdersPosition = some a.openOrders :=
    hc.account? OrderEvent.openOrdersPosition
  have hmarket : OrderEvent.marketOf pool tx.keys c terms.marketIndex =
      .ok ((pool.markets[terms.marketIndex.toNat]?).getD a.market) := by
    rw [OrderEvent.marketOf]
    cases pool.markets[terms.marketIndex.toNat]? with
    | some market => rfl
    | none => exact Compiled.account_eq_ok_iff.mpr (hc.account? OrderEvent.marketPosition)
  refine Transaction.emits_of_eventAt hplace ?_
  refine Transaction.eventAt_eq_some_iff.mpr ⟨.order, heffect, ?_⟩
  refine map_some_eq_ok_iff.mpr ⟨_, ?_, rfl⟩
  refine OrderEvent.ofInstruction_eq_some_iff.mpr
    ⟨terms, a.openOrders, _, t, hterms, hopen, hmarket, ht, ?_⟩
  rw [hc.data, Instruction.seedOf_of_encode hd]

theorem settleFunds_emits {terms : Settlement} {a : SettleAccounts}
    (hcall : settleFunds program pool.seed terms a = .ok call)
    (hplace : tx.instructions[place]? = some c) (hc : c.StandsFor tx.keys call)
    (hfound : (tx.innerOf place).filterMap
      (SettleEvent.proceeds? pool tx.keys tokenProgram) ≠ []) :
    tx.Emits pool program tokenProgram place
      (.settle (.shown tx (tx.innerOf place) pool tokenProgram a.market a.openOrders)) := by
  have heffect : tx.effectOn? pool program c = some .settle :=
    Transaction.effectOn?_of_standsFor hcall hc rfl rfl
  obtain ⟨d, _, rfl⟩ := make_eq_ok_iff.mp hcall
  have hmarket : c.account? tx.keys SettleEvent.marketPosition = some a.market :=
    hc.account? SettleEvent.marketPosition
  have hopen : c.account? tx.keys SettleEvent.openOrdersPosition = some a.openOrders :=
    hc.account? SettleEvent.openOrdersPosition
  refine Transaction.emits_of_eventAt hplace ?_
  refine Transaction.eventAt_eq_some_iff.mpr ⟨.settle, heffect, ?_⟩
  refine map_some_eq_ok_iff.mpr ⟨_, ?_, rfl⟩
  exact SettleEvent.ofInstruction_eq_some_iff.mpr
    ⟨a.market, a.openOrders, hmarket, hopen, hfound, rfl⟩

theorem exists_make {i : Instruction} (accounts : List AccountUse) (hs : i.seed.length = 32)
    (hf : ∀ f ∈ i.action.fields, f.Fits) : ∃ call, make program accounts i = .ok call := by
  obtain ⟨d, hd⟩ := Instruction.exists_encode_iff.mpr ⟨hs, hf⟩
  exact ⟨⟨program, accounts, d⟩, make_eq_ok_iff.mpr ⟨d, hd, rfl⟩⟩

/-- Wherever a transaction holds the call of an order and its inner instructions show a transfer,
or holds the call of a settlement and they show a transfer to the pool, the instruction emits the
event of that order or settlement. -/
theorem compiled_emits {pool : TrackedPool} (hseed : pool.seed.length = 32)
    (program tokenProgram : Key) :
    (∀ (terms : OrderTerms) (a : OrderAccounts), terms.Named → (∀ f ∈ terms.fields, f.Fits) →
      ∃ call, createOrder program pool.seed terms a = .ok call ∧
        ∀ (tx : Transaction) (place : Nat) (c : Compiled) (t : Transfer),
          tx.instructions[place]? = some c → c.StandsFor tx.keys call →
          (tx.innerOf place).findSome? (·.transfer? tx.keys tokenProgram) = some t →
          tx.Emits pool program tokenProgram place (.order {
            signature := tx.signature, slot := tx.slot, openOrders := a.openOrders,
            market := (pool.markets[terms.marketIndex.toNat]?).getD a.market,
            seed := pool.seed, terms, transferred := t.amount })) ∧
    (∀ (terms : Settlement) (a : SettleAccounts),
      (∀ f ∈ (Action.settleFunds terms).fields, f.Fits) →
      ∃ call, settleFunds program pool.seed terms a = .ok call ∧
        ∀ (tx : Transaction) (place : Nat) (c x : Compiled) (t : Transfer) (mint : Key),
          tx.instructions[place]? = some c → c.StandsFor tx.keys call →
          x ∈ tx.innerOf place → x.transfer? tx.keys tokenProgram = some t →
          pool.assetAccounts.get? t.destination = some mint →
          tx.Emits pool program tokenProgram place
            (.settle (.shown tx (tx.innerOf place) pool tokenProgram a.market a.openOrders))) := by
  constructor
  · intro terms a hnamed hfits
    obtain ⟨call, hcall⟩ := exists_make (i := ⟨pool.seed, .createOrder terms⟩) a.uses hseed hfits
    refine ⟨call, hcall, fun tx place c t hplace hc ht => ?_⟩
    exact createOrder_emits hnamed hcall hplace hc ht
  · intro terms a hfits
    obtain ⟨call, hcall⟩ := exists_make (i := ⟨pool.seed, .settleFunds terms⟩) a.uses hseed hfits
    refine ⟨call, hcall, fun tx place c x t mint hplace hc hx ht hmint => ?_⟩
    have hproceeds : SettleEvent.proceeds? pool tx.keys tokenProgram x = some ⟨mint, t.amount⟩ := by
      simp [SettleEvent.proceeds?, ht, hmint]
    have hmem := List.mem_filterMap.mpr ⟨x, hx, hproceeds⟩
    exact settleFunds_emits hcall hplace hc (List.ne_nil_of_mem hmem)

def bid : OrderTerms where
  side := .option .bid
  limitPrice := 1000
  assetRatio := 32768
  orderType := .option .limit
  clientId := 7
  selfTrade := .option .decrementTake
  sourceIndex := 0
  targetIndex := 1
  marketIndex := 1
  coinLotSize := 100
  pcLotSize := 10
  targetMint := .zero
  matchLimit := 65535

def bidAccounts : OrderAccounts where
  signalProvider := .ofNat 1
  market := .ofNat 2
  payerAsset := .ofNat 3
  openOrders := .ofNat 4
  requestQueue := .ofNat 5
  eventQueue := .ofNat 6
  bids := .ofNat 7
  asks := .ofNat 8
  pool := .ofNat 9
  coinVault := .ofNat 10
  pcVault := .ofNat 11
  venueProgram := .ofNat 12
  referrer := some (.ofNat 13)

def proceedsAccounts : SettleAccounts where
  market := .ofNat 2
  openOrders := .ofNat 4
  pool := .ofNat 9
  poolMint := .ofNat 14
  coinVault := .ofNat 10
  pcVault := .ofNat 11
  coinAsset := .ofNat 15
  pcAsset := .ofNat 3
  vaultSigner := .ofNat 16
  venueProgram := .ofNat 12
  referrer := none

def oneMarket : TrackedPool where
  seed := List.replicate 32 9
  markets := [.ofNat 17]
  assetAccounts := [(.ofNat 15, .ofNat 18)]

def transfer513 : Compiled := ⟨0, [1, 1], [3, 1, 2, 0, 0, 0, 0, 0, 0]⟩

theorem compiled_emits_bid :
    oneMarket.seed.length = 32 ∧
    (∃ call, createOrder (.ofNat 20) oneMarket.seed bid bidAccounts = .ok call ∧
      (call.alone [.ofNat 19, .ofNat 11] (.only transfer513)).Emits oneMarket (.ofNat 20)
        (.ofNat 19) 0
        (.order { signature := "a", slot := 5, openOrders := .ofNat 4, market := .ofNat 2,
                  seed := oneMarket.seed, terms := bid, transferred := 513 })) ∧
    ∃ call, settleFunds (.ofNat 20) oneMarket.seed ⟨1, 0⟩ proceedsAccounts = .ok call ∧
      ∃ e : SettleEvent, e.market = .ofNat 2 ∧ e.openOrders = .ofNat 4 ∧
        e.amounts = [⟨.ofNat 18, 513⟩] ∧
        (call.alone [.ofNat 19, .ofNat 15] (.only transfer513)).Emits oneMarket (.ofNat 20)
          (.ofNat 19) 0 (.settle e) := by
  have hseed : oneMarket.seed.length = 32 := rfl
  obtain ⟨horder, hsettle⟩ := compiled_emits hseed (.ofNat 20) (.ofNat 19)
  refine ⟨hseed, ?_, ?_⟩
  · have hnamed : bid.Named := ⟨⟨_, rfl⟩, ⟨_, rfl⟩, ⟨_, rfl⟩⟩
    have hfits : ∀ f ∈ bid.fields, f.Fits := by decide
    obtain ⟨call, hcall, hemits⟩ := horder bid bidAccounts hnamed hfits
    refine ⟨call, hcall, ?_⟩
    exact hemits (call.alone [.ofNat 19, .ofNat 11] (.only transfer513)) 0 _ ⟨.ofNat 11, 513⟩ rfl
      (standsFor_compiled call _ _) rfl
  · have hfits : ∀ f ∈ (Action.settleFunds ⟨1, 0⟩).fields, f.Fits := by decide
    obtain ⟨call, hcall, hemits⟩ := hsettle ⟨1, 0⟩ proceedsAccounts hfits
    refine ⟨call, hcall, _, ?_, ?_, ?_,
      hemits (call.alone [.ofNat 19, .ofNat 15] (.only transfer513)) 0 _ transfer513
        ⟨.ofNat 15, 513⟩ (.ofNat 18) rfl (standsFor_compiled call _ _) List.mem_cons_self rfl rfl⟩
    · rfl
    · rfl
    · rfl

end Call

end SignalPool
