import SignalPool.Proofs.RoundTrip

namespace SignalPool

namespace Reader

variable {α β : Type}

theorem run_bind_eq_ok {r : Reader α} {k : α → Reader β} {c c' : Cursor} {b : β} :
    (r >>= k).run c = .ok (b, c') ↔
      ∃ a mid, r.run c = .ok (a, mid) ∧ (k a).run mid = .ok (b, c') := by
  rw [StateT.run_bind]
  cases hr : r.run c with
  | error f => simp [bind, Except.bind]
  | ok p =>
    constructor
    · intro h
      exact ⟨p.1, p.2, rfl, h⟩
    · rintro ⟨a, mid, hp, h⟩
      cases hp
      exact h

theorem run_map_eq_ok {r : Reader α} {f : α → β} {c c' : Cursor} {b : β} :
    (f <$> r).run c = .ok (b, c') ↔ ∃ a, r.run c = .ok (a, c') ∧ f a = b := by
  rw [StateT.run_map]
  cases hr : r.run c with
  | error f => simp [Functor.map, Except.map]
  | ok p =>
    constructor
    · intro h
      cases h
      exact ⟨p.1, rfl, rfl⟩
    · rintro ⟨a, hp, rfl⟩
      cases hp
      rfl

/-- Whatever the reader takes is what some fields are written as. The value, these fields and the
bytes that are left stand in the given relation. -/
def Takes (r : Reader α) (Q : α → List Field → Bytes → Prop) : Prop :=
  ∀ c a c', r.run c = .ok (a, c') →
    ∃ fs bs, Field.encodeAll fs = .ok bs ∧ c.rest = bs ++ c'.rest ∧ Q a fs c'.rest

variable {Q : α → List Field → Bytes → Prop} {R : β → List Field → Bytes → Prop}

theorem Takes.pure {a : α} (h : ∀ rest, Q a [] rest) : (pure a : Reader α).Takes Q := by
  intro c a' c' hr
  cases hr
  exact ⟨[], [], rfl, rfl, h _⟩

theorem Takes.bind {r : Reader α} {k : α → Reader β} (hr : r.Takes Q)
    (hk : ∀ a fs rest, Q a fs rest → (k a).Takes fun b gs rest => R b (fs ++ gs) rest) :
    (r >>= k).Takes R := by
  intro c b c' h
  obtain ⟨a, mid, ha, hb⟩ := run_bind_eq_ok.mp h
  obtain ⟨fs, xs, hfs, hxs, hq⟩ := hr c a mid ha
  obtain ⟨gs, ys, hgs, hys, hR⟩ := hk a fs mid.rest hq mid b c' hb
  refine ⟨fs ++ gs, xs ++ ys, ?_, ?_, hR⟩
  · exact Field.encodeAll_append_ok.mpr ⟨xs, ys, hfs, hgs, rfl⟩
  · rw [hxs, hys, List.append_assoc]

theorem Takes.cons {r : Reader α} {k : α → Reader β} {field : α → Field}
    (hr : r.Takes fun a fs _ => fs = [field a])
    (hk : ∀ a, (k a).Takes fun b gs rest => R b (field a :: gs) rest) : (r >>= k).Takes R := by
  refine hr.bind fun a fs _ hfs => ?_
  subst hfs
  exact hk a

theorem Takes.map {r : Reader α} (f : α → β) (hr : r.Takes Q)
    (h : ∀ a fs rest, Q a fs rest → R (f a) fs rest) : (f <$> r).Takes R := by
  intro c b c' hb
  obtain ⟨a, ha, rfl⟩ := run_map_eq_ok.mp hb
  obtain ⟨fs, bs, hfs, hbs, hq⟩ := hr c a c' ha
  exact ⟨fs, bs, hfs, hbs, h a fs c'.rest hq⟩

theorem chunk_eq_ok {n : Nat} {short : Nat → Nat → FormatFault} {c c' : Cursor} {bs : Bytes}
    (h : (chunk n short).run c = .ok (bs, c')) : bs.length = n ∧ c.rest = bs ++ c'.rest := by
  obtain hn | hn := Nat.lt_or_ge c.rest.length n
  · rw [run_chunk_of_lt hn] at h
    cases h
  · rw [run_chunk_of_le hn] at h
    cases h
    exact ⟨List.length_take_of_le hn, (List.take_append_drop n c.rest).symm⟩

theorem word_takes (w : Width) : (word w).Takes fun n fs _ => fs = [.word w n] := by
  intro c n c' h
  obtain ⟨bs, hbs, rfl⟩ := run_map_eq_ok.mp h
  obtain ⟨hlen, hrest⟩ := chunk_eq_ok hbs
  have hlt : Bytes.littleEndian bs < w.bound := by
    rw [Width.bound, ← hlen]
    exact Bytes.littleEndian_lt bs
  have hback : Bytes.ofNat w.size (Bytes.littleEndian bs) = bs := by
    rw [← hlen]
    exact Bytes.ofNat_littleEndian bs
  have henc : w.encode (Bytes.littleEndian bs) = .ok bs := by
    rw [Width.encode_natCast hlt, hback]
  refine ⟨_, bs, ?_, hrest, rfl⟩
  exact Field.encodeAll_cons_ok.mpr ⟨bs, [], henc, rfl, (List.append_nil bs).symm⟩

theorem int_takes (w : Width) : (int w).Takes fun value fs _ => fs = [.word w value] :=
  (word_takes w).map (fun n : Nat => (n : Int)) fun _ _ _ h => h

theorem key_takes : key.Takes fun k fs _ => fs = [.key k] := by
  intro c k c' h
  obtain hl | hl := Nat.lt_or_ge c.rest.length 32
  · rw [run_key_of_lt hl] at h
    cases h
  · rw [run_key_of_le hl] at h
    cases h
    refine ⟨_, c.rest.take 32, ?_, (List.take_append_drop 32 c.rest).symm, rfl⟩
    exact Field.encodeAll_cons_ok.mpr ⟨_, [], rfl, rfl, (List.append_nil _).symm⟩

theorem choice_takes [Coded α] (bad : Nat → FormatFault) :
    (choice bad : Reader (Choice α)).Takes fun x fs _ => fs = [.word .u8 x.toInt] := by
  refine Takes.cons (word_takes .u8) fun n => ?_
  cases hn : Coded.ofCode? (α := α) n with
  | none =>
    intro c x c' h
    cases h
  | some a =>
    refine Takes.pure fun _ => ?_
    rw [Choice.toInt_option, Coded.code_of_ofCode? n a hn]

theorem times_takes {r : Reader α} {field : α → Field}
    (hr : r.Takes fun a fs _ => fs = [field a]) (n : Nat) :
    (times r n).Takes fun as fs _ => as.length = n ∧ fs = as.map field := by
  induction n with
  | zero => exact Takes.pure fun _ => ⟨rfl, rfl⟩
  | succ n ih =>
    refine Takes.cons hr fun a => ?_
    refine ih.bind fun as fs _ h => Takes.pure fun _ => ?_
    obtain ⟨rfl, rfl⟩ := h
    exact ⟨rfl, by simp⟩

end Reader

namespace OrderTerms

theorem reader_takes : reader.Takes fun o fs _ => fs = o.fields := by
  refine .cons (Reader.choice_takes _) fun side => ?_
  refine .cons (Reader.int_takes .u64) fun limitPrice => ?_
  refine .cons (Reader.int_takes .u16) fun assetRatio => ?_
  refine .cons (Reader.choice_takes _) fun orderType => ?_
  refine .cons (Reader.int_takes .u64) fun clientId => ?_
  refine .cons (Reader.choice_takes _) fun selfTrade => ?_
  refine .cons (Reader.int_takes .u64) fun sourceIndex => ?_
  refine .cons (Reader.int_takes .u64) fun targetIndex => ?_
  refine .cons (Reader.int_takes .u16) fun marketIndex => ?_
  refine .cons (Reader.int_takes .u64) fun coinLotSize => ?_
  refine .cons (Reader.int_takes .u64) fun pcLotSize => ?_
  refine .cons Reader.key_takes fun targetMint => ?_
  refine .cons (Reader.int_takes .u16) fun matchLimit => ?_
  exact .pure fun _ => rfl

end OrderTerms

namespace FirstDeposit

theorem amountsReader_takes :
    amountsReader.Takes fun amounts fs rest => fs = amounts.map (.word .u64) ∧ rest = [] := by
  intro c amounts c' h
  have hrun : amountsReader.run c =
      (if c.rest.length % 8 = 0 then Reader.times (Reader.int .u64) (c.rest.length / 8)
        else throw (.depositsUneven c.rest.length)).run c := rfl
  rw [hrun] at h
  by_cases hmod : c.rest.length % 8 = 0
  · rw [if_pos hmod] at h
    obtain ⟨fs, bs, hfs, hbs, hlen, rfl⟩ :=
      Reader.times_takes (Reader.int_takes .u64) _ c amounts c' h
    have hsize : bs.length = 8 * amounts.length := by
      rw [Field.length_of_encodeAll hfs, sizeAll_amounts]
    have hall : c.rest.length = bs.length + c'.rest.length := by rw [hbs, List.length_append]
    refine ⟨_, bs, hfs, hbs, rfl, List.eq_nil_of_length_eq_zero ?_⟩
    omega
  · rw [if_neg hmod] at h
    cases h

theorem reader_takes :
    reader.Takes fun d fs rest => fs = (Action.create d).fields ∧ rest = [] := by
  refine .cons (Reader.word_takes .u16) fun count => ?_
  refine .cons (Reader.int_takes .u64) fun feePeriod => ?_
  refine .cons (Reader.int_takes .u16) fun feeRatio => ?_
  refine (Reader.times_takes Reader.key_takes count).bind fun markets _ _ hm => ?_
  obtain ⟨rfl, rfl⟩ := hm
  refine amountsReader_takes.map
    (fun amounts => ({ feePeriod, feeRatio, markets, amounts } : FirstDeposit)) ?_
  rintro amounts _ rest ⟨rfl, hrest⟩
  exact ⟨rfl, hrest⟩

end FirstDeposit

namespace Action

theorem reader_takes (t : Tag) :
    (reader t).Takes fun a fs rest => a.tag = t ∧ fs = a.fields ∧ (t = .create → rest = []) := by
  cases t with
  | init =>
    refine .cons (Reader.int_takes .u32) fun maxAssets => ?_
    refine .cons (Reader.int_takes .u16) fun markets => ?_
    exact .pure fun _ => ⟨rfl, rfl, nofun⟩
  | create =>
    refine FirstDeposit.reader_takes.map create ?_
    rintro d _ rest ⟨rfl, hrest⟩
    exact ⟨rfl, rfl, fun _ => hrest⟩
  | deposit =>
    refine (Reader.int_takes .u64).map deposit ?_
    rintro amount _ rest rfl
    exact ⟨rfl, rfl, nofun⟩
  | createOrder =>
    refine OrderTerms.reader_takes.map createOrder ?_
    rintro o _ rest rfl
    exact ⟨rfl, rfl, nofun⟩
  | cancelOrder =>
    refine .cons (Reader.choice_takes _) fun side => ?_
    refine .cons (Reader.int_takes .u128) fun orderId => ?_
    exact .pure fun _ => ⟨rfl, rfl, nofun⟩
  | settleFunds =>
    refine .cons (Reader.int_takes .u64) fun pcIndex => ?_
    refine .cons (Reader.int_takes .u64) fun coinIndex => ?_
    exact .pure fun _ => ⟨rfl, rfl, nofun⟩
  | redeem =>
    refine (Reader.int_takes .u64).map redeem ?_
    rintro amount _ rest rfl
    exact ⟨rfl, rfl, nofun⟩
  | collectFees => exact .pure fun _ => ⟨rfl, rfl, nofun⟩

theorem sizeAll_fields {a : Action} (h : a.tag ≠ .create) :
    33 + Field.sizeAll a.fields = a.tag.minSize := by
  rw [sizeAll_eq_wireSize]
  cases a with
  | create d => exact absurd rfl h
  | _ => rfl

end Action

namespace Tag

theorem le_minSize (t : Tag) : 33 ≤ t.minSize := by cases t <;> decide

theorem body_of_lt {α : Type} {t : Tag} {r : Reader α} {d : Bytes} (h : d.length < t.minSize) :
    t.body r d = .error (.instructionShort t d.length) :=
  if_pos h

theorem body_of_le {α : Type} {t : Tag} {r : Reader α} {d : Bytes} (h : t.minSize ≤ d.length) :
    t.body r d = (r.run ⟨33, d.drop 33⟩).map Prod.fst :=
  if_neg (Nat.not_lt.mpr h)

theorem body_eq_ok_iff {α : Type} {t : Tag} {r : Reader α} {d : Bytes} {a : α} :
    t.body r d = .ok a ↔
      t.minSize ≤ d.length ∧ ∃ c', r.run ⟨33, d.drop 33⟩ = .ok (a, c') := by
  obtain hl | hl := Nat.lt_or_ge d.length t.minSize
  · simp [body_of_lt hl, Nat.not_le.mpr hl]
  · rw [body_of_le hl]
    cases hr : r.run ⟨33, d.drop 33⟩ with
    | error f => simp [Except.map]
    | ok p => simp [Except.map, hl, Prod.ext_iff]

end Tag

namespace OrderTerms

theorem body_of_decode {d : Bytes} {o : OrderTerms} (h : decode d = .ok o) :
    Tag.createOrder.body reader d = .ok o := by
  rw [decode] at h
  cases hexpect : Tag.expect Tag.createOrder.code d with
  | error f =>
    rw [hexpect] at h
    cases h
  | ok u =>
    rw [hexpect] at h
    exact h

end OrderTerms

namespace Instruction

theorem decode_eq_ok_iff {t : Tag} {d : Bytes} {i : Instruction} :
    decode t.code d = .ok i ↔
      d.head? = some t.code ∧ t.body (Action.reader t) d = .ok i.action ∧ seedOf d = i.seed := by
  cases d with
  | nil => simp [decode, Tag.expect, bind, Except.bind]
  | cons b rest =>
    by_cases hb : b = t.code
    · subst hb
      rw [decode_code_cons]
      cases hbody : t.body (Action.reader t) (t.code :: rest) with
      | error f => simp [Except.map]
      | ok action =>
        obtain ⟨seed, act⟩ := i
        simp [Except.map, and_comm]
    · simp [decode, Tag.expect, hb, bind, Except.bind]

theorem decode_of_orderTerms {d : Bytes} {o : OrderTerms}
    (hhead : d.head? = some Tag.createOrder.code) (h : OrderTerms.decode d = .ok o) :
    decode Tag.createOrder.code d = .ok ⟨seedOf d, .createOrder o⟩ := by
  obtain ⟨hfull, c', hrun⟩ := Tag.body_eq_ok_iff.mp (OrderTerms.body_of_decode h)
  refine decode_eq_ok_iff.mpr ⟨hhead, Tag.body_eq_ok_iff.mpr ⟨hfull, c', ?_⟩, rfl⟩
  exact Reader.run_map_eq_ok.mpr ⟨o, hrun, rfl⟩

theorem eq_tag_seed_rest {b : UInt8} {d : Bytes} (h : d.head? = some b) :
    d = b :: seedOf d ++ d.drop 33 := by
  cases d with
  | nil => cases h
  | cons b' rest =>
    cases h
    exact congrArg (b :: ·) (List.take_append_drop 32 rest).symm

theorem length_seedOf {d : Bytes} (h : 33 ≤ d.length) : (seedOf d).length = 32 := by
  rw [seedOf, List.length_take, List.length_drop]
  omega

theorem encode_of_decode {t : Tag} {d : Bytes} {i : Instruction} (h : decode t.code d = .ok i) :
    i.encode = .ok (if t = .create then d else d.take t.minSize) := by
  obtain ⟨hhead, hbody, hseed⟩ := decode_eq_ok_iff.mp h
  obtain ⟨hmin, c', hrun⟩ := Tag.body_eq_ok_iff.mp hbody
  obtain ⟨_, bs, hbs, hdrop, htag, rfl, hend⟩ := Action.reader_takes t _ _ _ hrun
  have hlen : (seedOf d).length = 32 := length_seedOf (Nat.le_trans t.le_minSize hmin)
  have hd : d = (t.code :: seedOf d ++ bs) ++ c'.rest := by
    rw [List.append_assoc, ← hdrop]
    exact eq_tag_seed_rest hhead
  have henc : i.encode = .ok (t.code :: seedOf d ++ bs) := by
    refine encode_eq_ok_iff.mpr ⟨hseed ▸ hlen, bs, hbs, ?_⟩
    rw [tag, htag, hseed]
  rw [henc]
  congr 1
  by_cases ht : t = .create
  · rw [if_pos ht]
    rw [hend ht, List.append_nil] at hd
    exact hd.symm
  · have hsize : (t.code :: seedOf d ++ bs).length = t.minSize := by
      rw [← htag, ← Action.sizeAll_fields (htag ▸ ht), ← Field.length_of_encodeAll hbs]
      simp only [List.cons_append, List.length_cons, List.length_append, hlen]
      omega
    rw [if_neg ht]
    exact ((congrArg (List.take t.minSize) hd).trans (List.take_left' hsize)).symm

/-- Writing gives back what was read: all of a first deposit, and of the other kinds the bytes
that the kind asks for. No two buffers hold the same first deposit. -/
theorem encode_decode {t : Tag} {d : Bytes} {i : Instruction} (h : decode t.code d = .ok i) :
    i.encode = .ok (if t = .create then d else d.take t.minSize) ∧
      (t = .create → ∀ d', decode t.code d' = .ok i → d' = d) := by
  refine ⟨encode_of_decode h, fun ht d' h' => ?_⟩
  have henc := encode_of_decode h
  rw [encode_of_decode h', if_pos ht, if_pos ht] at henc
  exact Except.ok.inj henc

def opening : Instruction where
  seed := List.replicate 32 9
  action := .create
    { feePeriod := 604800, feeRatio := 328, markets := [.ofNat 7]
      amounts := [1000, 18446744073709551615] }

def openingBuffer : Bytes :=
  1 :: List.replicate 32 9 ++ [1, 0] ++ [0x80, 0x3a, 9, 0, 0, 0, 0, 0] ++ [0x48, 1] ++
    (List.replicate 31 0 ++ [7]) ++ [0xe8, 3, 0, 0, 0, 0, 0, 0] ++ List.replicate 8 0xff

theorem encode_decode_opening :
    decode 1 openingBuffer = .ok opening ∧ opening.encode = .ok openingBuffer ∧
      ∀ d', decode 1 d' = .ok opening → d' = openingBuffer := by
  have hd : decode Tag.create.code openingBuffer = .ok opening := rfl
  exact ⟨hd, (encode_decode hd).1, (encode_decode hd).2 rfl⟩

end Instruction

end SignalPool
