import SignalPool.Instruction.Wire

namespace SignalPool

namespace Field

def Fits : Field → Prop
  | word w value => 0 ≤ value ∧ value < w.bound
  | key _ => True

instance : DecidablePred Fits
  | word w value => inferInstanceAs (Decidable (0 ≤ value ∧ value < w.bound))
  | key _ => .isTrue trivial

theorem exists_encode_iff {f : Field} : (∃ bs, f.encode = .ok bs) ↔ f.Fits := by
  cases f with
  | word w value =>
    constructor
    · rintro ⟨bs, h⟩
      obtain ⟨hnonneg, hlt, _⟩ := Width.encode_eq_ok_iff.mp h
      exact ⟨hnonneg, hlt⟩
    · rintro ⟨hnonneg, hlt⟩
      exact ⟨_, Width.encode_eq_ok_iff.mpr ⟨hnonneg, hlt, rfl⟩⟩
  | key k => exact iff_of_true ⟨k.bytes, rfl⟩ trivial

theorem exists_encodeAll_iff {fs : List Field} :
    (∃ bs, encodeAll fs = .ok bs) ↔ ∀ f ∈ fs, f.Fits := by
  induction fs with
  | nil => simp
  | cons f fs ih =>
    rw [List.forall_mem_cons, ← exists_encode_iff, ← ih]
    constructor
    · rintro ⟨bs, h⟩
      obtain ⟨head, tail, hf, ht, _⟩ := encodeAll_cons_ok.mp h
      exact ⟨⟨head, hf⟩, ⟨tail, ht⟩⟩
    · rintro ⟨⟨head, hf⟩, ⟨tail, ht⟩⟩
      exact ⟨head ++ tail, encodeAll_cons_ok.mpr ⟨head, tail, hf, ht, rfl⟩⟩

theorem sizeAll_map {α : Type} (field : α → Field) {n : Nat} (h : ∀ a, (field a).size = n)
    (as : List α) : sizeAll (as.map field) = n * as.length := by
  induction as with
  | nil => rfl
  | cons a as ih =>
    rw [List.map_cons, sizeAll, h, ih, List.length_cons, Nat.mul_succ, Nat.add_comm]

end Field

namespace Reader

variable {α β : Type}

/-- In front of `rest`, the reader takes whatever some fields are written as and gives `a`. -/
def ReadsBack (r : Reader α) (rest : Bytes) (fields : List Field) (a : α) : Prop :=
  ∀ offset bs, Field.encodeAll fields = .ok bs →
    r.run ⟨offset, bs ++ rest⟩ = .ok (a, ⟨offset + bs.length, rest⟩)

theorem ReadsBack.pure (a : α) (rest : Bytes) : ReadsBack (pure a) rest [] a := by
  intro offset bs h
  cases h
  rfl

theorem ReadsBack.bind {r : Reader α} {k : α → Reader β} {rest : Bytes} {fs gs : List Field}
    {a : α} {b : β} (hr : ∀ mid, r.ReadsBack mid fs a) (hk : (k a).ReadsBack rest gs b) :
    (r >>= k).ReadsBack rest (fs ++ gs) b := by
  intro offset bs h
  obtain ⟨xs, ys, hx, hy, rfl⟩ := Field.encodeAll_append_ok.mp h
  rw [StateT.run_bind, List.append_assoc, hr _ offset xs hx]
  have hyk := hk (offset + xs.length) ys hy
  rw [List.length_append, ← Nat.add_assoc]
  exact hyk

theorem ReadsBack.cons {r : Reader α} {k : α → Reader β} {rest : Bytes} {f : Field}
    {gs : List Field} {a : α} {b : β} (hr : ∀ mid, r.ReadsBack mid [f] a)
    (hk : (k a).ReadsBack rest gs b) : (r >>= k).ReadsBack rest (f :: gs) b :=
  ReadsBack.bind hr hk

theorem ReadsBack.map {r : Reader α} {rest : Bytes} {fs : List Field} {a : α} (f : α → β)
    (hr : r.ReadsBack rest fs a) : (f <$> r).ReadsBack rest fs (f a) := by
  intro offset bs h
  rw [StateT.run_map, hr offset bs h]
  rfl

theorem word_readsBack (w : Width) (n : Nat) (rest : Bytes) :
    (word w).ReadsBack rest [.word w n] n := by
  intro offset bs h
  obtain ⟨head, tail, hw, ht, rfl⟩ := Field.encodeAll_cons_ok.mp h
  cases ht
  obtain ⟨_, hlt, rfl⟩ := Width.encode_eq_ok_iff.mp hw
  have hb : n < w.bound := by exact_mod_cast hlt
  rw [List.append_nil, Int.toNat_natCast, word_append w n offset rest hb, Bytes.length_ofNat]

theorem int_readsBack (w : Width) (value : Int) (rest : Bytes) :
    (int w).ReadsBack rest [.word w value] value := by
  cases value with
  | ofNat n => exact (word_readsBack w n rest).map _
  | negSucc n =>
    intro offset bs h
    obtain ⟨head, tail, hw, _⟩ := Field.encodeAll_cons_ok.mp h
    have hn := (Width.encode_eq_ok_iff.mp hw).1
    omega

theorem key_readsBack (k : Key) (rest : Bytes) : key.ReadsBack rest [.key k] k := by
  intro offset bs h
  obtain ⟨head, tail, hk, ht, rfl⟩ := Field.encodeAll_cons_ok.mp h
  cases hk
  cases ht
  rw [List.append_nil, key_append, k.size_eq]

theorem choice_readsBack [Coded α] (bad : Nat → FormatFault) (a : α) (rest : Bytes) :
    (choice bad).ReadsBack rest [.word .u8 (Choice.option a).toInt] (.option a) := by
  refine ReadsBack.cons (fun mid => word_readsBack .u8 (Coded.code a) mid) ?_
  rw [Coded.ofCode?_code]
  exact ReadsBack.pure _ rest

theorem times_readsBack {r : Reader α} {field : α → Field}
    (hr : ∀ a mid, r.ReadsBack mid [field a] a) (as : List α) (rest : Bytes) :
    (times r as.length).ReadsBack rest (as.map field) as := by
  induction as with
  | nil => exact ReadsBack.pure [] rest
  | cons a as ih =>
    refine ReadsBack.cons (hr a) ?_
    exact ih.map (a :: ·)

end Reader

namespace FirstDeposit

theorem sizeAll_amounts (amounts : List Int) :
    Field.sizeAll (amounts.map (.word .u64)) = 8 * amounts.length :=
  Field.sizeAll_map (.word .u64) (fun _ => rfl) amounts

theorem amountsReader_readsBack (amounts : List Int) :
    amountsReader.ReadsBack [] (amounts.map (.word .u64)) amounts := by
  intro offset bs h
  have hlen : bs.length = 8 * amounts.length := by
    rw [Field.length_of_encodeAll h, sizeAll_amounts]
  have htimes := Reader.times_readsBack (Reader.int_readsBack .u64) amounts [] offset bs h
  have hmod : (bs ++ []).length % 8 = 0 := by
    rw [List.append_nil, hlen]
    omega
  have hdiv : (bs ++ []).length / 8 = amounts.length := by
    rw [List.append_nil, hlen]
    omega
  unfold amountsReader
  rw [StateT.run_bind]
  show (if (bs ++ []).length % 8 = 0 then Reader.times (Reader.int .u64) ((bs ++ []).length / 8)
    else throw _).run _ = _
  rw [if_pos hmod, hdiv]
  exact htimes

end FirstDeposit

namespace Choice

variable {α : Type} [Coded α]

def Named (c : Choice α) : Prop := ∃ a, c = .option a

end Choice

namespace OrderTerms

structure Named (o : OrderTerms) : Prop where
  side : o.side.Named
  orderType : o.orderType.Named
  selfTrade : o.selfTrade.Named

theorem reader_readsBack {o : OrderTerms} (h : o.Named) (rest : Bytes) :
    reader.ReadsBack rest o.fields o := by
  obtain ⟨side, limitPrice, assetRatio, orderType, clientId, selfTrade, sourceIndex, targetIndex,
    marketIndex, coinLotSize, pcLotSize, targetMint, matchLimit⟩ := o
  obtain ⟨⟨side, rfl⟩, ⟨orderType, rfl⟩, ⟨selfTrade, rfl⟩⟩ := h
  refine .cons (Reader.choice_readsBack _ side) ?_
  refine .cons (Reader.int_readsBack .u64 limitPrice) ?_
  refine .cons (Reader.int_readsBack .u16 assetRatio) ?_
  refine .cons (Reader.choice_readsBack _ orderType) ?_
  refine .cons (Reader.int_readsBack .u64 clientId) ?_
  refine .cons (Reader.choice_readsBack _ selfTrade) ?_
  refine .cons (Reader.int_readsBack .u64 sourceIndex) ?_
  refine .cons (Reader.int_readsBack .u64 targetIndex) ?_
  refine .cons (Reader.int_readsBack .u16 marketIndex) ?_
  refine .cons (Reader.int_readsBack .u64 coinLotSize) ?_
  refine .cons (Reader.int_readsBack .u64 pcLotSize) ?_
  refine .cons (Reader.key_readsBack targetMint) ?_
  refine .cons (Reader.int_readsBack .u16 matchLimit) ?_
  exact .pure _ rest

end OrderTerms

namespace FirstDeposit

theorem reader_readsBack (d : FirstDeposit) :
    reader.ReadsBack [] (Action.create d).fields d := by
  refine .cons (Reader.word_readsBack .u16 d.markets.length) ?_
  refine .cons (Reader.int_readsBack .u64 d.feePeriod) ?_
  refine .cons (Reader.int_readsBack .u16 d.feeRatio) ?_
  refine .bind (Reader.times_readsBack Reader.key_readsBack d.markets) ?_
  exact (amountsReader_readsBack d.amounts).map fun amounts => { d with amounts }

end FirstDeposit

namespace Action

/-- What the action states where an option is due is one. -/
def Named : Action → Prop
  | createOrder o => o.Named
  | cancelOrder c => c.side.Named
  | _ => True

theorem reader_readsBack {a : Action} (h : a.Named) :
    (reader a.tag).ReadsBack [] a.fields a := by
  cases a with
  | init a =>
    exact .cons (Reader.int_readsBack .u32 a.maxAssets) <|
      .cons (Reader.int_readsBack .u16 a.markets) <| .pure _ []
  | create d => exact d.reader_readsBack.map _
  | deposit amount => exact (Reader.int_readsBack .u64 amount []).map _
  | createOrder o => exact (OrderTerms.reader_readsBack h []).map _
  | cancelOrder c =>
    obtain ⟨side, orderId⟩ := c
    obtain ⟨side, rfl⟩ : ∃ a, side = .option a := h
    exact .cons (Reader.choice_readsBack _ side) <|
      .cons (Reader.int_readsBack .u128 orderId) <| .pure _ []
  | settleFunds s =>
    exact .cons (Reader.int_readsBack .u64 s.pcIndex) <|
      .cons (Reader.int_readsBack .u64 s.coinIndex) <| .pure _ []
  | redeem amount => exact (Reader.int_readsBack .u64 amount []).map _
  | collectFees => exact .pure _ []

/-- How many bytes an instruction takes up, its tag and its seed among them. -/
def wireSize : Action → Nat
  | init _ => 39
  | create d => 45 + 32 * d.markets.length + 8 * d.amounts.length
  | deposit _ => 41
  | createOrder _ => 122
  | cancelOrder _ => 50
  | settleFunds _ => 49
  | redeem _ => 41
  | collectFees => 33

theorem sizeAll_eq_wireSize (a : Action) : 33 + Field.sizeAll a.fields = a.wireSize := by
  cases a with
  | create d =>
    have hfixed : Field.sizeAll [.word .u16 (d.markets.length : Int), .word .u64 d.feePeriod,
        .word .u16 d.feeRatio] = 12 := rfl
    have hmarkets : Field.sizeAll (d.markets.map .key) = 32 * d.markets.length :=
      Field.sizeAll_map .key (fun _ => rfl) d.markets
    rw [fields, Field.sizeAll_append, Field.sizeAll_append, hfixed, hmarkets,
      FirstDeposit.sizeAll_amounts, wireSize]
    omega
  | _ => rfl

theorem minSize_le (a : Action) : a.tag.minSize ≤ 33 + Field.sizeAll a.fields := by
  rw [sizeAll_eq_wireSize]
  cases a with
  | create d =>
    rw [tag, Tag.minSize, wireSize]
    omega
  | _ => exact Nat.le_refl _

end Action

namespace Instruction

theorem exists_encode_iff {i : Instruction} :
    (∃ d, i.encode = .ok d) ↔ i.seed.length = 32 ∧ ∀ f ∈ i.action.fields, f.Fits := by
  rw [← Field.exists_encodeAll_iff]
  constructor
  · rintro ⟨d, h⟩
    obtain ⟨hs, body, hb, _⟩ := encode_eq_ok_iff.mp h
    exact ⟨hs, body, hb⟩
  · rintro ⟨hs, body, hb⟩
    exact ⟨_, encode_eq_ok_iff.mpr ⟨hs, body, hb, rfl⟩⟩

/-- A buffer that an instruction was written to starts with its tag and its seed, and is read
back as that instruction. -/
theorem decode_encode {i : Instruction} {d : Bytes} (hn : i.action.Named) (h : i.encode = .ok d) :
    d.head? = some i.tag.code ∧ seedOf d = i.seed ∧ decode i.tag.code d = .ok i := by
  obtain ⟨hs, body, hb, rfl⟩ := encode_eq_ok_iff.mp h
  have hseed : seedOf (i.tag.code :: i.seed ++ body) = i.seed := List.take_left' hs
  refine ⟨rfl, hseed, ?_⟩
  have hlen : ¬(i.tag.code :: i.seed ++ body).length < i.tag.minSize := by
    have hmin := i.action.minSize_le
    rw [← Field.length_of_encodeAll hb] at hmin
    simp only [List.cons_append, List.length_cons, List.length_append, hs]
    exact Nat.not_lt.mpr (Nat.le_trans hmin (by omega))
  have hdrop : (i.tag.code :: i.seed ++ body).drop 33 = body ++ [] := by
    rw [List.append_nil]
    exact List.drop_left' (congrArg Nat.succ hs)
  have hread := Action.reader_readsBack hn 33 body hb
  have hbody : i.tag.body (Action.reader i.tag) (i.tag.code :: i.seed ++ body) = .ok i.action := by
    rw [Tag.body, if_neg hlen, Reader.readAt, hdrop]
    exact congrArg (Except.map Prod.fst) hread
  rw [List.cons_append] at hbody hseed ⊢
  rw [decode_code_cons, hbody, hseed]
  rfl

def ask : Instruction where
  seed := List.replicate 32 9
  action := .createOrder
    { side := .option .ask, limitPrice := 1000, assetRatio := 6553
      orderType := .option .postOnly, clientId := 7, selfTrade := .option .cancelProvide
      sourceIndex := 1, targetIndex := 0, marketIndex := 0, coinLotSize := 100
      pcLotSize := 10, targetMint := .zero, matchLimit := 65535 }

def askBuffer : Bytes :=
  3 :: List.replicate 32 9 ++ [1] ++ [0xe8, 3, 0, 0, 0, 0, 0, 0] ++ [0x99, 0x19] ++ [2] ++
    [7, 0, 0, 0, 0, 0, 0, 0] ++ [1] ++ [1, 0, 0, 0, 0, 0, 0, 0] ++ List.replicate 8 0 ++
    [0, 0] ++ [100, 0, 0, 0, 0, 0, 0, 0] ++ [10, 0, 0, 0, 0, 0, 0, 0] ++ List.replicate 32 0 ++
    [0xff, 0xff]

theorem decode_encode_ask :
    ask.action.Named ∧ ask.encode = .ok askBuffer ∧ askBuffer.head? = some 3 ∧
      seedOf askBuffer = List.replicate 32 9 ∧ decode 3 askBuffer = .ok ask := by
  have hn : ask.action.Named := ⟨⟨_, rfl⟩, ⟨_, rfl⟩, ⟨_, rfl⟩⟩
  have he : ask.encode = .ok askBuffer := rfl
  exact ⟨hn, he, decode_encode hn he⟩

end Instruction

end SignalPool
