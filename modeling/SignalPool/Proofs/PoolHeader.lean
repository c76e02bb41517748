import SignalPool.Pool.Header
import SignalPool.Proofs.Outcomes
import SignalPool.Proofs.RoundTrip

namespace SignalPool

namespace Bytes

def numberAt (data : Bytes) (place size : Nat) : Nat := littleEndian ((data.drop place).take size)

theorem numberAt_one {data : Bytes} {place : Nat} {b : UInt8} (h : data[place]? = some b) :
    data.numberAt place 1 = b.toNat := by
  obtain ⟨hlt, hb⟩ := List.getElem?_eq_some_iff.mp h
  rw [numberAt, List.drop_eq_getElem_cons hlt, hb]
  rfl

theorem length_slice {data : Bytes} {place size : Nat} (h : place + size ≤ data.length) :
    ((data.drop place).take size).length = size := by
  rw [List.length_take, List.length_drop]
  omega

def keyAt (data : Bytes) (place : Nat) (h : place + 32 ≤ data.length) : Key :=
  ⟨(data.drop place).take 32, length_slice h⟩

end Bytes

namespace Reader

variable {α β : Type}

theorem lift_readsBack {x : Except FormatFault α} {a : α} (h : x = .ok a) (rest : Bytes) :
    Reader.ReadsBack (StateT.lift x) rest [] a := by
  subst h
  exact ReadsBack.pure a rest

theorem chunk_readsBack (short : Nat → Nat → FormatFault) (k : Key) (rest : Bytes) :
    (chunk 32 short).ReadsBack rest [.key k] k.bytes := by
  intro offset bs h
  obtain ⟨head, tail, hk, ht, rfl⟩ := Field.encodeAll_cons_ok.mp h
  cases hk
  cases ht
  rw [List.append_nil, ← k.size_eq]
  exact chunk_append short offset k.bytes rest

theorem ReadsBack.readAt {r : Reader α} {rest data bs : Bytes} {fs : List Field} {a : α}
    {offset : Nat} (hr : r.ReadsBack rest fs a) (hfs : Field.encodeAll fs = .ok bs)
    (hdata : data.drop offset = bs ++ rest) : r.readAt data offset = .ok a := by
  rw [Reader.readAt, hdata, hr offset bs hfs]
  rfl

variable {data : Bytes} {place : Nat}

theorem run_bind_of_ok {r : Reader α} {k : α → Reader β} {c c' : Cursor} {a : α}
    (h : r.run c = .ok (a, c')) : (r >>= k).run c = (k a).run c' := by
  rw [StateT.run_bind, h]
  rfl

theorem run_bind_of_error {r : Reader α} {k : α → Reader β} {c : Cursor} {f : FormatFault}
    (h : r.run c = .error f) : (r >>= k).run c = .error f := by
  rw [StateT.run_bind, h]
  rfl

theorem run_lift_ok {x : Except FormatFault α} {a : α} (h : x = .ok a) (c : Cursor) :
    StateT.run (StateT.lift x : Reader α) c = .ok (a, c) := by
  subst h
  rfl

theorem run_lift_error {x : Except FormatFault α} {f : FormatFault} (h : x = .error f)
    (c : Cursor) : StateT.run (StateT.lift x : Reader α) c = .error f := by
  subst h
  rfl

theorem run_chunk_at {size : Nat} (short : Nat → Nat → FormatFault)
    (h : place + size ≤ data.length) : (chunk size short).run ⟨place, data.drop place⟩ =
      .ok ((data.drop place).take size, ⟨place + size, data.drop (place + size)⟩) := by
  have hlen : size ≤ (data.drop place).length := by
    rw [List.length_drop]
    omega
  rw [run_chunk_of_le hlen, List.drop_drop]

theorem run_word_at (w : Width) (h : place + w.size ≤ data.length) :
    (word w).run ⟨place, data.drop place⟩ =
      .ok (data.numberAt place w.size, ⟨place + w.size, data.drop (place + w.size)⟩) := by
  rw [word, StateT.run_map, run_chunk_at _ h]
  rfl

theorem run_int_at (w : Width) (h : place + w.size ≤ data.length) :
    (int w).run ⟨place, data.drop place⟩ =
      .ok ((data.numberAt place w.size : Int), ⟨place + w.size, data.drop (place + w.size)⟩) := by
  rw [int, StateT.run_map, run_word_at w h]
  rfl

theorem run_key_at (h : place + 32 ≤ data.length) : key.run ⟨place, data.drop place⟩ =
    .ok (data.keyAt place h, ⟨place + 32, data.drop (place + 32)⟩) := by
  have hlen : 32 ≤ (data.drop place).length := by
    rw [List.length_drop]
    omega
  rw [run_key_of_le hlen, List.drop_drop]
  rfl

end Reader

namespace Pool

namespace Status

theorem encode_counted (kind : StatusKind) (flag : Nat) {k : Nat} (hk : k < 63) :
    encode.counted ⟨kind, k + 1⟩ flag = .ok (flag + k) := by
  have hrange : 1 ≤ (k : Int) + 1 ∧ (k : Int) + 1 ≤ 63 := by omega
  have hlow : ((k : Int) + 1 - 1).toNat = k := by omega
  simp only [encode.counted, if_pos hrange, hlow]

theorem counting_add (kind : StatusKind) (mode : Nat) {k : Nat} (hk : k < 63) :
    counting (64 * mode + k) kind = .ok ⟨kind, k + 1⟩ := by
  have hlow : (64 * mode + k) % 64 = k := by omega
  have hcount : ((64 * mode + k : Nat) : Int) % 64 = k := by omega
  rw [counting, hlow, if_neg (Nat.ne_of_lt hk), hcount]

theorem exists_nat_of_valid {kind : StatusKind} {count : Int} (hkind : kind.counts)
    (h : Valid ⟨kind, count⟩) : ∃ k : Nat, k < 63 ∧ count = k + 1 := by
  have hrange : 1 ≤ count ∧ count ≤ 63 := by rwa [Valid, if_pos hkind] at h
  exact ⟨(count - 1).toNat, by omega, by omega⟩

theorem exists_encode {s : Status} (h : s.Valid) :
    ∃ byte, s.encode = .ok byte ∧ byte < 256 ∧ ofByte byte = .ok s := by
  obtain ⟨kind, count⟩ := s
  cases kind with
  | uninitialized =>
    have hcount : count = 0 := h
    exact ⟨0, rfl, by decide, by rw [hcount]; rfl⟩
  | unlocked =>
    have hcount : count = 0 := h
    exact ⟨0x3f, rfl, by decide, by rw [hcount]; rfl⟩
  | locked =>
    have hcount : count = 0 := h
    exact ⟨0x80, rfl, by decide, by rw [hcount]; rfl⟩
  | pendingOrder =>
    obtain ⟨k, hk, rfl⟩ := exists_nat_of_valid rfl h
    have hmode : (0x40 + k) / 64 = 1 := by omega
    refine ⟨0x40 + k, encode_counted .pendingOrder 0x40 hk, by omega, ?_⟩
    simp only [ofByte, hmode]
    exact counting_add .pendingOrder 1 hk
  | lockedPendingOrder =>
    obtain ⟨k, hk, rfl⟩ := exists_nat_of_valid rfl h
    have hmode : (0xc0 + k) / 64 = 3 := by omega
    refine ⟨0xc0 + k, encode_counted .lockedPendingOrder 0xc0 hk, by omega, ?_⟩
    simp only [ofByte, hmode]
    exact counting_add .lockedPendingOrder 3 hk

theorem exists_counting_iff {byte : Nat} {kind : StatusKind} :
    (∃ s, counting byte kind = .ok s) ↔ byte % 64 ≠ 63 := by
  by_cases h : byte % 64 = 63
  · simp [counting, h]
  · simp [counting, h]

/-- A byte has a status, but for two: those would have sixty-four pending orders. -/
theorem exists_ofByte_iff {byte : Nat} (hbyte : byte < 256) :
    (∃ s, ofByte byte = .ok s) ↔ byte ≠ 0x7f ∧ byte ≠ 0xff := by
  obtain hmode | hmode | hmode | hmode :
      byte / 64 = 0 ∨ byte / 64 = 1 ∨ byte / 64 = 2 ∨ byte / 64 = 3 := by omega
  · simp only [ofByte, hmode, Except.ok.injEq, exists_eq', true_iff]
    omega
  · simp only [ofByte, hmode, exists_counting_iff]
    omega
  · simp only [ofByte, hmode, Except.ok.injEq, exists_eq', true_iff]
    omega
  · simp only [ofByte, hmode, exists_counting_iff]
    omega

end Status

namespace Header

/-- Every field fits its place: the seed has thirty-two bytes, and the numbers are in range. -/
structure Valid (h : Header) : Prop where
  seed : h.seed.length = 32
  status : h.status.Valid
  marketCount : (Field.word .u16 h.marketCount).Fits
  feeRatio : (Field.word .u16 h.feeRatio).Fits
  lastFeeCollection : (Field.word .u64 h.lastFeeCollection).Fits
  feePeriod : (Field.word .u64 h.feePeriod).Fits

def fields (h : Header) (seed : Key) (status : Nat) : List Field :=
  [.key h.venueProgram, .key seed, .key h.signalProvider] ++ h.tailFields status

theorem reader_readsBack {h : Header} {seed : Key} {status : Nat} (hseed : seed.bytes = h.seed)
    (hstatus : Status.ofByte status = .ok h.status) (rest : Bytes) :
    reader.ReadsBack rest (h.fields seed status) h := by
  obtain ⟨venueProgram, _, signalProvider, pool, marketCount, feeRatio, lastFeeCollection,
    feePeriod⟩ := h
  subst hseed
  refine .cons (Reader.key_readsBack venueProgram) ?_
  refine .cons (Reader.chunk_readsBack .keyCut seed) ?_
  refine .cons (Reader.key_readsBack signalProvider) ?_
  refine .cons (Reader.word_readsBack .u8 status) ?_
  refine .bind (Reader.lift_readsBack hstatus) ?_
  refine .cons (Reader.int_readsBack .u16 marketCount) ?_
  refine .cons (Reader.int_readsBack .u16 feeRatio) ?_
  refine .cons (Reader.int_readsBack .u64 lastFeeCollection) ?_
  refine .cons (Reader.int_readsBack .u64 feePeriod) ?_
  exact .pure _ rest

theorem sizeAll_fields (h : Header) (seed : Key) (status : Nat) :
    Field.sizeAll (h.fields seed status) = size := rfl

theorem encode_of_fields {h : Header} {seed : Key} {status : Nat} {bs : Bytes}
    (hseed : seed.bytes = h.seed) (hstatus : h.status.encode = .ok status)
    (hbs : Field.encodeAll (h.fields seed status) = .ok bs) : h.encode = .ok bs := by
  obtain ⟨keys, tail, hkeys, htail, rfl⟩ := Field.encodeAll_append_ok.mp hbs
  have hcheck : Seed.check h.seed = .ok h.seed :=
    Seed.check_eq_ok_iff.mpr ⟨hseed ▸ seed.size_eq, rfl⟩
  cases hkeys
  simp only [encode, bind_eq_ok_iff, mapError_eq_ok_iff]
  refine ⟨h.seed, hcheck, status, hstatus, tail, htail, congrArg Except.ok ?_⟩
  rw [hseed, List.append_nil, List.append_assoc h.venueProgram.bytes]

theorem exists_encode {h : Header} (hv : h.Valid) :
    ∃ (seed : Key) (status : Nat) (bs : Bytes), h.encode = .ok bs ∧
      Field.encodeAll (h.fields seed status) = .ok bs ∧ seed.bytes = h.seed ∧
      Status.ofByte status = .ok h.status := by
  obtain ⟨status, hencode, hbyte, hstatus⟩ := Status.exists_encode hv.status
  have hstatusFits : (Field.word .u8 status).Fits :=
    ⟨Int.natCast_nonneg status, by exact_mod_cast hbyte⟩
  have hfits : ∀ f ∈ h.fields ⟨h.seed, hv.seed⟩ status, f.Fits := by
    simp only [fields, tailFields, List.cons_append, List.nil_append, List.forall_mem_cons]
    exact ⟨trivial, trivial, trivial, hstatusFits, hv.marketCount, hv.feeRatio,
      hv.lastFeeCollection, hv.feePeriod, List.forall_mem_nil _⟩
  obtain ⟨bs, hbs⟩ := Field.exists_encodeAll_iff.mpr hfits
  exact ⟨_, status, bs, encode_of_fields rfl hencode hbs, hbs, rfl, hstatus⟩

theorem decode_append {h : Header} {seed : Key} {status : Nat} {bs : Bytes}
    (hbs : Field.encodeAll (h.fields seed status) = .ok bs) (hseed : seed.bytes = h.seed)
    (hstatus : Status.ofByte status = .ok h.status) (rest : Bytes) :
    decode (bs ++ rest) = .ok h := by
  have hfull : ¬(bs ++ rest).length < size := by
    rw [List.length_append, Field.length_of_encodeAll hbs, sizeAll_fields]
    omega
  rw [decode, if_neg hfull]
  exact (reader_readsBack hseed hstatus rest).readAt hbs rfl

variable {data : Bytes}

/-- The header whose fields stand at their places in a buffer, with some status. -/
def laidOut (data : Bytes) (h : size ≤ data.length) (status : Status) : Header where
  venueProgram := data.keyAt 0 (Nat.le_trans (by decide) h)
  seed := (data.drop 32).take 32
  signalProvider := data.keyAt 64 (Nat.le_trans (by decide) h)
  status := status
  marketCount := data.numberAt 97 2
  feeRatio := data.numberAt 99 2
  lastFeeCollection := data.numberAt 101 8
  feePeriod := data.numberAt 109 8

/-- Read one after the other, the fields are those at their places. Only the status can fail. -/
theorem decode_eq_laidOut (h : size ≤ data.length) :
    decode data = (Status.ofByte (data.numberAt 96 1)).map (laidOut data h) := by
  have hplace {place n : Nat} (hn : place + n ≤ size) : place + n ≤ data.length :=
    Nat.le_trans hn h
  have hread : decode data = (reader.run ⟨0, data.drop 0⟩).map Prod.fst :=
    if_neg (Nat.not_lt.mpr h)
  have hstatus : reader.run ⟨0, data.drop 0⟩ = _ :=
    (Reader.run_bind_of_ok (Reader.run_key_at (hplace (by decide)))).trans <|
    (Reader.run_bind_of_ok (Reader.run_chunk_at .keyCut (hplace (by decide)))).trans <|
    (Reader.run_bind_of_ok (Reader.run_key_at (hplace (by decide)))).trans <|
    Reader.run_bind_of_ok (Reader.run_word_at .u8 (hplace (by decide)))
  cases hbyte : Status.ofByte (data.numberAt 96 1) with
  | error f =>
    have hfault : reader.run ⟨0, data.drop 0⟩ = _ :=
      hstatus.trans (Reader.run_bind_of_error (Reader.run_lift_error hbyte _))
    rw [hread, hfault]
    rfl
  | ok status =>
    have hfields : reader.run ⟨0, data.drop 0⟩ = _ :=
      hstatus.trans <|
      (Reader.run_bind_of_ok (Reader.run_lift_ok hbyte _)).trans <|
      (Reader.run_bind_of_ok (Reader.run_int_at .u16 (hplace (by decide)))).trans <|
      (Reader.run_bind_of_ok (Reader.run_int_at .u16 (hplace (by decide)))).trans <|
      (Reader.run_bind_of_ok (Reader.run_int_at .u64 (hplace (by decide)))).trans <|
      Reader.run_bind_of_ok (Reader.run_int_at .u64 (hplace (by decide)))
    rw [hread, hfields]
    rfl

theorem decode_eq_ok_iff {h : Header} :
    decode data = .ok h ↔ ∃ (hl : size ≤ data.length) (status : Status),
      Status.ofByte (data.numberAt 96 1) = .ok status ∧ laidOut data hl status = h := by
  obtain hl | hl := Nat.lt_or_ge data.length size
  · have hshort : decode data = .error (.headerShort data.length) := if_pos hl
    simp [hshort, Nat.not_le.mpr hl]
  · rw [decode_eq_laidOut hl, map_eq_ok_iff]
    constructor
    · rintro ⟨status, hstatus, hh⟩
      exact ⟨hl, status, hstatus, hh⟩
    · rintro ⟨_, status, hstatus, hh⟩
      exact ⟨status, hstatus, hh⟩

theorem exists_decode_iff : (∃ h, decode data = .ok h) ↔
    size ≤ data.length ∧ data[96]? ≠ some 0x7f ∧ data[96]? ≠ some 0xff := by
  have hsome : (∃ h, decode data = .ok h) ↔
      size ≤ data.length ∧ ∃ status, Status.ofByte (data.numberAt 96 1) = .ok status := by
    simp only [decode_eq_ok_iff]
    constructor
    · rintro ⟨_, hl, status, hstatus, _⟩
      exact ⟨hl, status, hstatus⟩
    · rintro ⟨hl, status, hstatus⟩
      exact ⟨_, hl, status, hstatus, rfl⟩
  rw [hsome]
  refine and_congr_right fun hl => ?_
  have hlt : 96 < data.length := Nat.lt_of_lt_of_le (by decide) hl
  have hget : data[96]? = some data[96] := List.getElem?_eq_getElem hlt
  have hne (b : UInt8) : some data[96] ≠ some b ↔ data[96].toNat ≠ b.toNat := by
    rw [ne_eq, ne_eq, Option.some.injEq, UInt8.toNat_inj]
  rw [Bytes.numberAt_one hget, hget, hne, hne]
  exact Status.exists_ofByte_iff data[96].toNat_lt

variable {h : Header}

theorem length_of_decode (hd : decode data = .ok h) : 117 ≤ data.length := by
  obtain ⟨hl, _⟩ := decode_eq_ok_iff.mp hd
  exact hl

theorem seed_of_decode (hd : decode data = .ok h) : h.seed = (data.drop 32).take 32 := by
  obtain ⟨_, _, _, rfl⟩ := decode_eq_ok_iff.mp hd
  rfl

theorem signalProvider_of_decode (hd : decode data = .ok h) :
    h.signalProvider.bytes = (data.drop 64).take 32 := by
  obtain ⟨_, _, _, rfl⟩ := decode_eq_ok_iff.mp hd
  rfl

theorem marketCount_of_decode (hd : decode data = .ok h) :
    h.marketCount = data.numberAt 97 2 := by
  obtain ⟨_, _, _, rfl⟩ := decode_eq_ok_iff.mp hd
  rfl

end Header

end Pool

end SignalPool
