import SignalPool.Proofs.Canonical
import SignalPool.Proofs.PoolHeader

namespace SignalPool

namespace Reader

variable {α : Type}

theorem chunk_takes (short : Nat → Nat → FormatFault) :
    (chunk 32 short).Takes fun bs fs _ => ∃ k : Key, k.bytes = bs ∧ fs = [.key k] := by
  intro c bs c' h
  obtain ⟨hlen, hrest⟩ := chunk_eq_ok h
  refine ⟨[.key ⟨bs, hlen⟩], bs, ?_, hrest, ⟨bs, hlen⟩, rfl, rfl⟩
  exact Field.encodeAll_cons_ok.mpr ⟨bs, [], rfl, rfl, (List.append_nil bs).symm⟩

theorem lift_takes (x : Except FormatFault α) :
    Takes (StateT.lift x : Reader α) fun a fs _ => x = .ok a ∧ fs = [] := by
  intro c a c' h
  cases x with
  | error f => cases h
  | ok b =>
    cases h
    exact ⟨[], [], rfl, rfl, rfl, rfl⟩

end Reader

namespace Bytes

variable {front : Bytes} {n place : Nat}

theorem getElem?_at (hn : front.length = n) (b : UInt8) (back : Bytes) :
    (front ++ b :: back)[n]? = some b := by
  rw [← hn, List.getElem?_append_right (Nat.le_refl _), Nat.sub_self, List.getElem?_cons_zero]

theorem getElem?_beside (hn : front.length = n) (hplace : place ≠ n) (b b' : UInt8)
    (back : Bytes) : (front ++ b :: back)[place]? = (front ++ b' :: back)[place]? := by
  obtain hlt | hgt := Nat.lt_or_gt_of_ne hplace
  · rw [List.getElem?_append_left (hn ▸ hlt), List.getElem?_append_left (hn ▸ hlt)]
  · obtain ⟨k, hk⟩ : ∃ k, place - n = k + 1 := ⟨place - n - 1, by omega⟩
    rw [List.getElem?_append_right (by omega), List.getElem?_append_right (by omega), hn, hk,
      List.getElem?_cons_succ, List.getElem?_cons_succ]

end Bytes

namespace Pool

namespace Status

/-- Of the bytes with the same status the one that it is written to. -/
def canonicalByte (b : UInt8) : UInt8 :=
  if 0x01 ≤ b ∧ b ≤ 0x3f then 0x3f else if 0x80 ≤ b ∧ b ≤ 0xbf then 0x80 else b

theorem toNat_canonicalByte (b : UInt8) : (canonicalByte b).toNat =
    if 0x01 ≤ b.toNat ∧ b.toNat ≤ 0x3f then 0x3f
    else if 0x80 ≤ b.toNat ∧ b.toNat ≤ 0xbf then 0x80 else b.toNat := by
  simp only [canonicalByte, UInt8.le_iff_toNat_le, apply_ite UInt8.toNat]
  rfl

theorem exists_of_counting {byte : Nat} {kind : StatusKind} {s : Status}
    (h : counting byte kind = .ok s) : ∃ k, k < 63 ∧ byte % 64 = k ∧ s = ⟨kind, (k : Int) + 1⟩ := by
  rw [counting] at h
  split at h
  · cases h
  · cases h
    exact ⟨byte % 64, by omega, rfl, rfl⟩

theorem encode_of_ofByte {b : UInt8} {s : Status} (h : ofByte b.toNat = .ok s) :
    s.encode = .ok (canonicalByte b).toNat := by
  have hlt : b.toNat < 256 := b.toNat_lt
  rw [toNat_canonicalByte]
  obtain hmode | hmode | hmode | hmode : b.toNat / 64 = 0 ∨ b.toNat / 64 = 1 ∨ b.toNat / 64 = 2 ∨
      b.toNat / 64 = 3 := by omega
  · simp only [ofByte, hmode, Except.ok.injEq] at h
    subst h
    by_cases hzero : b.toNat = 0
    · rw [if_pos hzero, if_neg (by omega), if_neg (by omega), hzero]
      rfl
    · rw [if_neg hzero, if_pos (by omega)]
      rfl
  · simp only [ofByte, hmode] at h
    obtain ⟨k, hk, hbyte, rfl⟩ := exists_of_counting h
    rw [if_neg (by omega), if_neg (by omega)]
    refine (encode_counted .pendingOrder 0x40 hk).trans (congrArg Except.ok ?_)
    omega
  · simp only [ofByte, hmode, Except.ok.injEq] at h
    subst h
    rw [if_neg (by omega), if_pos (by omega)]
    rfl
  · simp only [ofByte, hmode] at h
    obtain ⟨k, hk, hbyte, rfl⟩ := exists_of_counting h
    rw [if_neg (by omega), if_neg (by omega)]
    refine (encode_counted .lockedPendingOrder 0xc0 hk).trans (congrArg Except.ok ?_)
    omega

theorem ofByte_canonicalByte (b : UInt8) : ofByte (canonicalByte b).toNat = ofByte b.toNat := by
  rw [toNat_canonicalByte]
  split
  · have hmode : b.toNat / 64 = 0 := by omega
    have hne : b.toNat ≠ 0 := by omega
    simp only [ofByte, hmode, if_neg hne]
    rfl
  · split
    · have hmode : b.toNat / 64 = 2 := by omega
      simp only [ofByte, hmode]
    · rfl

end Status

namespace Header

theorem reader_takes : reader.Takes fun h fs _ => ∃ (seed : Key) (status : Nat),
    seed.bytes = h.seed ∧ Status.ofByte status = .ok h.status ∧ fs = h.fields seed status := by
  refine .cons Reader.key_takes fun venueProgram => ?_
  refine (Reader.chunk_takes _).bind fun _ _ _ hseed => ?_
  obtain ⟨seed, rfl, rfl⟩ := hseed
  refine .cons Reader.key_takes fun signalProvider => ?_
  refine .cons (Reader.word_takes .u8) fun byte => ?_
  refine (Reader.lift_takes _).bind fun status _ _ hstatus => ?_
  obtain ⟨hstatus, rfl⟩ := hstatus
  refine .cons (Reader.int_takes .u16) fun marketCount => ?_
  refine .cons (Reader.int_takes .u16) fun feeRatio => ?_
  refine .cons (Reader.int_takes .u64) fun lastFeeCollection => ?_
  refine .cons (Reader.int_takes .u64) fun feePeriod => ?_
  exact .pure fun _ => ⟨seed, byte, rfl, hstatus, rfl⟩

variable {data : Bytes} {h : Header}

theorem fields_of_decode (hd : decode data = .ok h) : ∃ (seed : Key) (status : Nat),
    Field.encodeAll (h.fields seed status) = .ok (data.take 117) ∧ seed.bytes = h.seed ∧
      Status.ofByte status = .ok h.status := by
  rw [decode] at hd
  split at hd
  · cases hd
  · obtain ⟨⟨_, c'⟩, hrun, rfl⟩ := map_eq_ok_iff.mp hd
    obtain ⟨_, bs, hbs, hdata, seed, status, hseed, hstatus, rfl⟩ := reader_takes _ _ _ hrun
    have hlen : bs.length = 117 := Field.length_of_encodeAll hbs
    have htake : data.take 117 = bs := by
      rw [show data = bs ++ c'.rest from hdata]
      exact List.take_left' hlen
    exact ⟨seed, status, htake ▸ hbs, hseed, hstatus⟩

theorem exists_around_status {seed : Key} {status : Nat} {bs : Bytes}
    (hbs : Field.encodeAll (h.fields seed status) = .ok bs) :
    ∃ (front : Bytes) (b : UInt8) (back : Bytes), front.length = 96 ∧ b.toNat = status ∧
      bs = front ++ b :: back ∧
      ∀ b' : UInt8, Field.encodeAll (h.fields seed b'.toNat) = .ok (front ++ b' :: back) := by
  obtain ⟨front, tail, hfront, htail, rfl⟩ := Field.encodeAll_append_ok.mp hbs
  obtain ⟨byte, back, hbyte, hback, rfl⟩ := Field.encodeAll_cons_ok.mp htail
  obtain ⟨_, hlt, rfl⟩ := Width.encode_eq_ok_iff.mp hbyte
  have hstatus : status < 256 := by exact_mod_cast hlt
  refine ⟨front, UInt8.ofNat status, back, Field.length_of_encodeAll hfront, ?_, rfl, fun b' => ?_⟩
  · exact UInt8.toNat_ofNat_of_lt hstatus
  · have hb' : Width.u8.encode b'.toNat = .ok [b'] := by
      rw [Width.encode_natCast b'.toNat_lt]
      exact congrArg Except.ok (congrArg (· :: []) UInt8.ofNat_toNat)
    exact Field.encodeAll_append_ok.mpr ⟨front, b' :: back, hfront,
      Field.encodeAll_cons_ok.mpr ⟨[b'], back, hb', hback, rfl⟩, rfl⟩

/-- Writing the header that was read gives back its bytes, but for the status byte, which becomes
the canonical one of the status. -/
theorem encode_canonical (hd : decode data = .ok h) :
    ∃ bs, h.encode = .ok bs ∧ bs.length = 117 ∧
      (∀ place, place ≠ 96 → bs[place]? = (data.take 117)[place]?) ∧
      bs[96]? = data[96]?.map Status.canonicalByte ∧ decode bs = .ok h := by
  obtain ⟨seed, status, hbs, hseed, hstatus⟩ := fields_of_decode hd
  obtain ⟨front, b, back, hfront, rfl, hdata, hfields⟩ := exists_around_status hbs
  have hnew := hfields (Status.canonicalByte b)
  refine ⟨_, encode_of_fields hseed (Status.encode_of_ofByte hstatus) hnew, ?_, ?_, ?_, ?_⟩
  · exact Field.length_of_encodeAll hnew
  · intro place hplace
    rw [hdata]
    exact Bytes.getElem?_beside hfront hplace _ _ back
  · have hb : data[96]? = some b := by
      rw [← List.getElem?_take_of_lt (show 96 < 117 by decide), hdata]
      exact Bytes.getElem?_at hfront b back
    rw [hb]
    exact Bytes.getElem?_at hfront _ back
  · rw [← Status.ofByte_canonicalByte] at hstatus
    have hread := decode_append hnew hseed hstatus []
    rwa [List.append_nil] at hread

def unlockedData : Bytes :=
  List.replicate 32 1 ++ List.replicate 32 9 ++ List.replicate 32 2 ++ [5] ++ [1, 0] ++
    [0xff, 0xff] ++ List.replicate 8 3 ++ List.replicate 8 0xff ++ List.replicate 32 7

theorem encode_canonical_unlocked :
    ∃ h : Header, decode unlockedData = .ok h ∧ h.status = .unlocked ∧
      ∃ bs, h.encode = .ok bs ∧ bs.length = 117 ∧
        (∀ place, place ≠ 96 → bs[place]? = (unlockedData.take 117)[place]?) ∧
        bs[96]? = some 0x3f ∧ decode bs = .ok h := by
  have hl : size ≤ unlockedData.length := by simp [unlockedData, size]
  have hstatus : Status.ofByte (unlockedData.numberAt 96 1) = .ok .unlocked := rfl
  have hd : decode unlockedData = .ok (laidOut unlockedData hl .unlocked) :=
    decode_eq_ok_iff.mpr ⟨hl, _, hstatus, rfl⟩
  have hbyte : unlockedData[96]?.map Status.canonicalByte = some 0x3f := rfl
  rw [← hbyte]
  exact ⟨_, hd, rfl, encode_canonical hd⟩

end Header

end Pool

end SignalPool
