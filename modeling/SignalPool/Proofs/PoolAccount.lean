import SignalPool.Pool.State
import SignalPool.Proofs.Layout
import SignalPool.Proofs.PoolHeader

namespace SignalPool

namespace Field

theorem encodeAll_keys (ks : List Key) : encodeAll (ks.map .key) = .ok (ks.flatMap Key.bytes) := by
  induction ks with
  | nil => rfl
  | cons k ks ih => exact encodeAll_cons_ok.mpr ⟨k.bytes, ks.flatMap Key.bytes, rfl, ih, rfl⟩

end Field

theorem Key.length_flatMap_bytes (ks : List Key) :
    (ks.flatMap Key.bytes).length = ks.length * 32 := by
  induction ks with
  | nil => rfl
  | cons k ks ih =>
    rw [List.flatMap_cons, List.length_append, ih, k.size_eq, List.length_cons, Nat.succ_mul,
      Nat.add_comm]

namespace Pool

theorem decodeMarkets_append (head : Bytes) (markets : List Key) (rest : Bytes) :
    decodeMarkets (head ++ (markets.flatMap Key.bytes ++ rest)) markets.length head.length =
      .ok markets := by
  have hfull : ¬((markets.length : Int) < 0 ∨
      ((head ++ (markets.flatMap Key.bytes ++ rest)).length : Int) <
        head.length + markets.length * 32) := by
    simp only [List.length_append, Key.length_flatMap_bytes]
    omega
  rw [decodeMarkets, if_neg hfull]
  exact (Reader.times_readsBack Reader.key_readsBack markets rest).readAt
    (Field.encodeAll_keys markets) (List.drop_left' rfl)

theorem decodeAssets_flatMap (slots : List Key) :
    decodeAssets (slots.flatMap Key.bytes) = .ok (slots.filter (· ≠ Key.zero)) := by
  have hlen := Key.length_flatMap_bytes slots
  have heven : (slots.flatMap Key.bytes).length % 32 = 0 := by omega
  have hcount : (slots.flatMap Key.bytes).length / 32 = slots.length := by omega
  have hslots : (Reader.times Reader.key slots.length).readAt (slots.flatMap Key.bytes) 0 =
      .ok slots :=
    (Reader.times_readsBack Reader.key_readsBack slots []).readAt (Field.encodeAll_keys slots)
      (List.append_nil _).symm
  rw [decodeAssets, if_neg (fun h => h heven), hcount, hslots]
  rfl

variable {data : Bytes}

theorem exists_decodeMarkets_iff {count offset : Nat} :
    (∃ markets, decodeMarkets data count offset = .ok markets) ↔
      offset + 32 * count ≤ data.length := by
  rw [decodeMarkets]
  split
  · rename_i hshort
    simp only [reduceCtorEq, exists_false, false_iff]
    omega
  · rename_i hfull
    have hsize : offset + Layout.size (List.replicate count .key) ≤ data.length := by
      rw [Layout.size_replicate, Piece.key, Piece.size]
      omega
    refine iff_of_true ?_ (by omega)
    exact (Reader.times_follows Reader.key_follows count).readAt hsize
      (Layout.named_replicate_bytes count 32 _)

theorem exists_decodeAssets_iff :
    (∃ assets, decodeAssets data = .ok assets) ↔ data.length % 32 = 0 := by
  rw [decodeAssets]
  split
  · rename_i huneven
    simp only [reduceCtorEq, exists_false, false_iff]
    exact huneven
  · rename_i heven
    have hmod : data.length % 32 = 0 := Decidable.not_not.mp heven
    have hsize : 0 + Layout.size (List.replicate (data.length / 32) .key) ≤ data.length := by
      rw [Layout.size_replicate, Piece.key, Piece.size]
      omega
    refine iff_of_true (exists_bind_ok ?_ fun slots => ⟨_, rfl⟩) hmod
    exact (Reader.times_follows Reader.key_follows _).readAt hsize
      (Layout.named_replicate_bytes _ 32 _)

namespace State

/-- A pool account that was written from a valid header, its markets and its asset slots is read
back as these, the unused slots left out. -/
theorem decode_written {h : Header} (hv : h.Valid) {markets : List Key}
    (hcount : h.marketCount = markets.length) (slots : List Key) :
    ∃ head, h.encode = .ok head ∧
      decode (head ++ markets.flatMap Key.bytes ++ slots.flatMap Key.bytes) =
        .ok { header := h, markets, assets := slots.filter (· ≠ Key.zero) } := by
  obtain ⟨seed, status, head, hencode, hhead, hseed, hstatus⟩ := Header.exists_encode hv
  have hsize : head.length = Header.size := Field.length_of_encodeAll hhead
  refine ⟨head, hencode, ?_⟩
  rw [List.append_assoc]
  have hheader := Header.decode_append hhead hseed hstatus
    (markets.flatMap Key.bytes ++ slots.flatMap Key.bytes)
  have hmarkets := decodeMarkets_append head markets (slots.flatMap Key.bytes)
  have hdrop : (head ++ (markets.flatMap Key.bytes ++ slots.flatMap Key.bytes)).drop
      (Header.size + h.marketCount.toNat * 32) = slots.flatMap Key.bytes := by
    rw [← List.drop_drop, List.drop_left' hsize, hcount, Int.toNat_natCast]
    exact List.drop_left' (Key.length_flatMap_bytes markets)
  rw [hsize, ← hcount] at hmarkets
  simp only [decode, hheader, hmarkets, hdrop, decodeAssets_flatMap, bind, Except.bind, pure,
    Except.pure]

def fullHeader : Header where
  venueProgram := .ofNat 1
  seed := List.replicate 32 9
  signalProvider := .ofNat 2
  status := ⟨.lockedPendingOrder, 63⟩
  marketCount := 2
  feeRatio := 65535
  lastFeeCollection := 18446744073709551615
  feePeriod := 18446744073709551615

theorem decode_written_full :
    let markets := [Key.ofNat 5, .ofNat 5]
    let slots := [Key.zero, .ofNat 7, .zero, .ofNat 8, .ofNat 7]
    fullHeader.Valid ∧ fullHeader.marketCount = markets.length ∧
      ∃ head, fullHeader.encode = .ok head ∧
        decode (head ++ markets.flatMap Key.bytes ++ slots.flatMap Key.bytes) =
          .ok { header := fullHeader, markets, assets := [.ofNat 7, .ofNat 8, .ofNat 7] } := by
  intro markets slots
  have hvalid : fullHeader.Valid := ⟨rfl, by decide, by decide, by decide, by decide, by decide⟩
  have hused : slots.filter (· ≠ Key.zero) = [.ofNat 7, .ofNat 8, .ofNat 7] := by decide +kernel
  rw [← hused]
  exact ⟨hvalid, rfl, decode_written hvalid rfl slots⟩

theorem header_of_decode {state : State} (h : decode data = .ok state) :
    Header.decode data = .ok state.header := by
  simp only [decode, bind_eq_ok_iff] at h
  obtain ⟨header, hheader, markets, _, assets, _, hstate⟩ := h
  cases hstate
  exact hheader

theorem length_of_decode {state : State} (h : decode data = .ok state) : 117 ≤ data.length :=
  Header.length_of_decode (header_of_decode h)

/-- An account holds a pool: a header whose status byte has a status, as many markets as the header
counts, and whole asset slots in the rest. -/
structure WellFormed (data : Bytes) : Prop where
  header : 117 ≤ data.length
  status : data[96]? ≠ some 0x7f ∧ data[96]? ≠ some 0xff
  markets : 117 + 32 * data.numberAt 97 2 ≤ data.length
  slots : (data.length - 117) % 32 = 0

theorem exists_decode_iff :
    (∃ state, decode data = .ok state) ↔ WellFormed data := by
  constructor
  · rintro ⟨state, hstate⟩
    simp only [decode, bind_eq_ok_iff] at hstate
    obtain ⟨header, hheader, markets, hmarkets, assets, hassets, _⟩ := hstate
    obtain ⟨hl, hstatus⟩ := Header.exists_decode_iff.mp ⟨header, hheader⟩
    rw [Header.marketCount_of_decode hheader] at hmarkets hassets
    have hroom := exists_decodeMarkets_iff.mp ⟨markets, hmarkets⟩
    have hrest := exists_decodeAssets_iff.mp ⟨assets, hassets⟩
    simp only [Header.size, List.length_drop, Int.toNat_natCast] at hl hroom hrest
    exact ⟨hl, hstatus, hroom, by omega⟩
  · rintro ⟨hl, hstatus, hroom, hrest⟩
    obtain ⟨header, hheader⟩ := Header.exists_decode_iff.mpr ⟨hl, hstatus⟩
    have hcount := Header.marketCount_of_decode hheader
    have hslots : (data.drop (Header.size + header.marketCount.toNat * 32)).length % 32 = 0 := by
      rw [hcount, Int.toNat_natCast, List.length_drop, Header.size]
      omega
    obtain ⟨markets, hmarkets⟩ := exists_decodeMarkets_iff.mpr hroom
    obtain ⟨assets, hassets⟩ := exists_decodeAssets_iff.mpr hslots
    rw [← hcount] at hmarkets
    refine ⟨⟨header, markets, assets⟩, ?_⟩
    simp only [decode, bind_eq_ok_iff]
    exact ⟨header, hheader, markets, hmarkets, assets, hassets, rfl⟩

end State

end Pool

end SignalPool
