import SignalPool.Market
import SignalPool.Proofs.Layout
import SignalPool.Proofs.Outcomes

namespace SignalPool

namespace Market

theorem exists_decode_iff {data : Bytes} {address : Key} :
    (∃ m, decode data address = .ok m) ↔ size ≤ data.length := by
  obtain hl | hl := Nat.lt_or_ge data.length size
  · simp [decode, hl, Nat.not_le.mpr hl]
  · refine iff_of_true ?_ hl
    have hlen : 365 ≤ data.length := hl
    have hkey (offset : Nat) (h : offset + 32 ≤ 365) : ∃ k, Reader.key.readAt data offset = .ok k :=
      Reader.key_follows.readAt (Nat.le_trans h hlen) ⟨trivial, trivial⟩
    have hword (offset : Nat) (h : offset + 8 ≤ 365) :
        ∃ n, Reader.reversedWord.readAt data offset = .ok n :=
      Reader.reversedWord_follows.readAt (Nat.le_trans h hlen) ⟨trivial, trivial⟩
    rw [decode, if_neg (Nat.not_lt.mpr hl)]
    refine exists_bind_ok (hkey 53 (by decide)) fun coinMint => ?_
    refine exists_bind_ok (hkey 117 (by decide)) fun coinVault => ?_
    refine exists_bind_ok (hword 349 (by decide)) fun coinLotSize => ?_
    refine exists_bind_ok (hkey 85 (by decide)) fun pcMint => ?_
    refine exists_bind_ok (hkey 165 (by decide)) fun pcVault => ?_
    refine exists_bind_ok (hword 357 (by decide)) fun pcLotSize => ?_
    refine exists_bind_ok (hword 45 (by decide)) fun nonce => ?_
    refine exists_bind_ok (hkey 221 (by decide)) fun requestQueue => ?_
    refine exists_bind_ok (hkey 253 (by decide)) fun eventQueue => ?_
    refine exists_bind_ok (hkey 285 (by decide)) fun bids => ?_
    refine exists_bind_ok (hkey 317 (by decide)) fun asks => ?_
    exact ⟨_, rfl⟩

end Market

namespace Mint

theorem decodeDecimals_of_lt {data : Bytes} (h : data.length < 45) :
    decodeDecimals data = .error (.mintShort data.length) :=
  if_pos (Nat.le_of_lt_succ h)

theorem decodeDecimals_of_le {data : Bytes} (h : 45 ≤ data.length) :
    decodeDecimals data = .ok (Bytes.littleEndian ((data.drop 44).take 1)) := by
  have hlen : (data.drop 44).length = data.length - 44 := List.length_drop
  have hword : (Reader.word .u8).run ⟨44, data.drop 44⟩ =
      .ok (Bytes.littleEndian ((data.drop 44).take 1), ⟨45, (data.drop 44).drop 1⟩) :=
    Reader.run_word_of_le (by simp only [hlen, Width.size]; omega)
  have hread : decodeDecimals data = (Reader.int .u8).readAt data 44 :=
    if_neg (Nat.not_le.mpr h)
  rw [hread, Reader.readAt, Reader.int, StateT.run_map, hword]
  rfl

theorem exists_decodeDecimals_iff {data : Bytes} :
    (∃ d, decodeDecimals data = .ok d) ↔ 45 ≤ data.length := by
  obtain hl | hl := Nat.lt_or_ge data.length 45
  · simp [decodeDecimals_of_lt hl, Nat.not_le.mpr hl]
  · simp [decodeDecimals_of_le hl, hl]

theorem decodeDecimals_lt {data : Bytes} {d : Int} (h : decodeDecimals data = .ok d) :
    ∃ n : Nat, d = n ∧ n < 256 := by
  have hl : 45 ≤ data.length := exists_decodeDecimals_iff.mp ⟨d, h⟩
  have hbyte := Bytes.littleEndian_lt ((data.drop 44).take 1)
  have hone : ((data.drop 44).take 1).length = 1 := by
    rw [List.length_take, List.length_drop]
    omega
  rw [hone] at hbyte
  rw [decodeDecimals_of_le hl] at h
  exact ⟨_, (Except.ok.inj h).symm, hbyte⟩

end Mint

end SignalPool
