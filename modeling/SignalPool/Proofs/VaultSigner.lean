import SignalPool.Address
import SignalPool.Proofs.Metadata
import SignalPool.Proofs.PoolHeader

namespace SignalPool

namespace Reader

variable {data : Bytes} {place : Nat}

theorem reversedWord_readAt (h : place + 8 ≤ data.length) :
    reversedWord.readAt data place = .ok (data.numberAt place 8) := by
  have hrun : reversedWord.run ⟨place, data.drop place⟩ =
      .ok (Bytes.bigEndian ((data.drop place).take 8).reverse,
        ⟨place + 8, data.drop (place + 8)⟩) := by
    rw [reversedWord, StateT.run_map, run_chunk_at _ h]
    rfl
  rw [readAt, hrun, Bytes.bigEndian_reverse]
  rfl

theorem wordAt_of_le {w : Width} (hplace : place < addressBound)
    (h : place + w.size ≤ data.length) :
    wordAt w data place = .ok (data.numberAt place w.size) := by
  have haddress : ¬(w ≠ .u128 ∧ addressBound ≤ place) := fun hw => Nat.not_le.mpr hplace hw.2
  rw [wordAt, if_neg haddress, readAt, run_word_at w h]
  rfl

/-- The eight bytes at a place give the number both when they are taken in reverse and read from the
high end, and when they are read as a word. -/
def ReadsAlike (data : Bytes) (place : Nat) (value : Int) : Prop :=
  ∃ n : Nat, value = n ∧ reversedWord.readAt data place = .ok n ∧ wordAt .u64 data place = .ok n

theorem readsAlike_numberAt (hplace : place < addressBound) (h : place + 8 ≤ data.length) :
    ReadsAlike data place (data.numberAt place 8) :=
  ⟨_, rfl, reversedWord_readAt h, wordAt_of_le (w := .u64) hplace h⟩

end Reader

/-- A number that was read from some bytes fits them and is written back as they stand. -/
theorem Width.encode_numberAt (w : Width) {data : Bytes} {place : Nat}
    (h : place + w.size ≤ data.length) :
    w.encode (data.numberAt place w.size) = .ok ((data.drop place).take w.size) := by
  have hlen : ((data.drop place).take w.size).length = w.size := Bytes.length_slice h
  have hfits : data.numberAt place w.size < w.bound := by
    have hlt := Bytes.littleEndian_lt ((data.drop place).take w.size)
    rwa [hlen] at hlt
  have hbytes : Bytes.ofNat w.size (data.numberAt place w.size) =
      (data.drop place).take w.size := by
    have hback := Bytes.ofNat_littleEndian ((data.drop place).take w.size)
    rwa [hlen] at hback
  rw [Width.encode_natCast hfits, hbytes]

theorem Address.vaultSigner_of_encode {nonce : Int} {bs : Bytes}
    (h : Width.u64.encode nonce = .ok bs) (market venueProgram : Key) :
    vaultSigner market nonce venueProgram = derive [market.bytes, bs] venueProgram := by
  have hok : (Width.u64.encode nonce).mapError Fault.range = .ok bs := by rw [h]; rfl
  simp only [vaultSigner, hok, bind, Except.bind]

namespace Market

variable {data : Bytes} {address : Key} {m : Market}

theorem numbers_of_decode (h : decode data address = .ok m) :
    m.vaultSignerNonce = data.numberAt 45 8 ∧ m.coinLotSize = data.numberAt 349 8 ∧
      m.pcLotSize = data.numberAt 357 8 := by
  have hlen : size ≤ data.length := exists_decode_iff.mp ⟨m, h⟩
  have hword (place : Nat) (hplace : place + 8 ≤ 365) :
      Reader.reversedWord.readAt data place = .ok (data.numberAt place 8) :=
    Reader.reversedWord_readAt (Nat.le_trans hplace hlen)
  rw [decode, if_neg (Nat.not_lt.mpr hlen), hword 45 (by decide), hword 349 (by decide),
    hword 357 (by decide)] at h
  simp only [bind_eq_ok_iff, Except.ok.injEq, exists_eq_left'] at h
  obtain ⟨_, _, _, _, _, _, _, _, _, _, _, _, _, _, _, _, h⟩ := h
  cases h
  exact ⟨rfl, rfl, rfl⟩

/-- The three numbers of a market, which are taken in reverse, are those that its bytes hold low
byte first. So the nonce is written back as the bytes that it came from, and the signer of the
vaults is the address that the market and these bytes give. -/
theorem vaultSigner_of_bytes (h : size ≤ data.length) (address venueProgram : Key) :
    ∃ m, decode data address = .ok m ∧
      Reader.ReadsAlike data 45 m.vaultSignerNonce ∧ Reader.ReadsAlike data 349 m.coinLotSize ∧
      Reader.ReadsAlike data 357 m.pcLotSize ∧
      Width.u64.encode m.vaultSignerNonce = .ok ((data.drop 45).take 8) ∧
      Address.vaultSigner address m.vaultSignerNonce venueProgram =
        Address.derive [address.bytes, (data.drop 45).take 8] venueProgram := by
  obtain ⟨m, hm⟩ : ∃ m, decode data address = .ok m := exists_decode_iff.mpr h
  obtain ⟨hnonce, hcoin, hpc⟩ := numbers_of_decode hm
  have halike (place : Nat) (hplace : place + 8 ≤ 365) :
      Reader.ReadsAlike data place (data.numberAt place 8) := by
    have haddress : place < Reader.addressBound :=
      Nat.lt_of_lt_of_le (by omega : place < 365) (by decide)
    exact Reader.readsAlike_numberAt haddress (Nat.le_trans hplace h)
  have hencode : Width.u64.encode m.vaultSignerNonce = .ok ((data.drop 45).take 8) := by
    rw [hnonce]
    exact Width.u64.encode_numberAt (Nat.le_trans (by decide) h)
  refine ⟨m, hm, ?_, ?_, ?_, hencode, Address.vaultSigner_of_encode hencode address venueProgram⟩
  · rw [hnonce]
    exact halike 45 (by decide)
  · rw [hcoin]
    exact halike 349 (by decide)
  · rw [hpc]
    exact halike 357 (by decide)

def unevenNonce : Bytes :=
  List.replicate 45 0 ++ [1, 2, 3, 4, 5, 6, 7, 8] ++ List.replicate 312 0

theorem vaultSigner_of_bytes_uneven :
    size ≤ unevenNonce.length ∧ ∃ m, decode unevenNonce (.ofNat 7) = .ok m ∧
      m.vaultSignerNonce = 0x0807060504030201 ∧
      Address.vaultSigner (.ofNat 7) m.vaultSignerNonce Identity.venueProgram =
        Address.derive [(Key.ofNat 7).bytes, [1, 2, 3, 4, 5, 6, 7, 8]]
          Identity.venueProgram := by
  have hlen : size ≤ unevenNonce.length := by decide +kernel
  obtain ⟨m, hm, _, _, _, _, hsigner⟩ := vaultSigner_of_bytes hlen (.ofNat 7) Identity.venueProgram
  have hnumber : unevenNonce.numberAt 45 8 = 0x0807060504030201 := by decide +kernel
  have hnonce := (numbers_of_decode hm).1
  rw [hnumber] at hnonce
  exact ⟨hlen, m, hm, hnonce, hsigner⟩

end Market

end SignalPool
