import SignalPool.Proofs.Canonical
import SignalPool.Proofs.Layout

namespace SignalPool

namespace FormatFault

def isTag : FormatFault → Bool
  | unknownTag _ | tagMismatch .. => true
  | _ => false

theorem not_isTag_of_isCut {f : FormatFault} (h : f.isCut) : ¬f.isTag := by
  cases f <;> simp_all [isCut, isTag]

theorem not_isTag_of_isUnnamed {f : FormatFault} (h : f.isUnnamed) : ¬f.isTag := by
  cases f <;> simp_all [isUnnamed, isTag]

theorem not_isCut_of_isUnnamed {f : FormatFault} (h : f.isUnnamed) : ¬f.isCut := by
  cases f <;> simp_all [isUnnamed, isCut]

end FormatFault

namespace Reader

variable {α β : Type} {P : Bytes → Prop}

/-- The reader gives a value exactly on the bytes with a property, and no tag is at fault
otherwise. -/
def Accepts (r : Reader α) (P : Bytes → Prop) : Prop :=
  ∀ c, (P c.rest ∧ ∃ p, r.run c = .ok p) ∨ (¬P c.rest ∧ ∃ f, r.run c = .error f ∧ ¬f.isTag)

theorem Accepts.congr {r : Reader α} {Q : Bytes → Prop} (hr : r.Accepts P)
    (h : ∀ bs, P bs ↔ Q bs) : r.Accepts Q := by
  intro c
  rw [← h]
  exact hr c

theorem Accepts.map {r : Reader α} (f : α → β) (hr : r.Accepts P) : (f <$> r).Accepts P := by
  intro c
  rw [StateT.run_map]
  obtain ⟨hp, p, hrun⟩ | ⟨hp, g, hrun, hg⟩ := hr c
  · exact .inl ⟨hp, (f p.1, p.2), by rw [hrun]; rfl⟩
  · exact .inr ⟨hp, g, by rw [hrun]; rfl, hg⟩

theorem Follows.accepts {r : Reader α} {l : Layout} (hr : r.Follows l) :
    r.Accepts fun bs => l.size ≤ bs.length ∧ l.Named bs := by
  intro c
  have h := hr c
  cases hrun : r.run c with
  | ok p =>
    rw [hrun] at h
    cases h with
    | done a hsize hnamed => exact .inl ⟨⟨hsize, hnamed⟩, _, rfl⟩
  | error f =>
    rw [hrun] at h
    refine .inr ⟨?_, f, rfl, ?_⟩
    · cases h with
      | cut hf hsize => exact fun hp => Nat.not_le.mpr hsize hp.1
      | unnamed hf hnamed => exact fun hp => hnamed hp.2
    · cases h with
      | cut hf hsize => exact FormatFault.not_isTag_of_isCut hf
      | unnamed hf hnamed => exact FormatFault.not_isTag_of_isUnnamed hf

theorem Accepts.bind {r : Reader α} {k : α → Reader β} {l : Layout} (hr : r.Follows l)
    (hk : ∀ a, (k a).Accepts P) :
    (r >>= k).Accepts fun bs => (l.size ≤ bs.length ∧ l.Named bs) ∧ P (bs.drop l.size) := by
  intro c
  rw [StateT.run_bind]
  have h := hr c
  cases hrun : r.run c with
  | ok p =>
    rw [hrun] at h
    cases h with
    | done a hsize hnamed =>
      obtain ⟨hp, hok⟩ | ⟨hp, herror⟩ := hk a ⟨c.offset + l.size, c.rest.drop l.size⟩
      · exact .inl ⟨⟨⟨hsize, hnamed⟩, hp⟩, hok⟩
      · exact .inr ⟨fun h => hp h.2, herror⟩
  | error f =>
    obtain ⟨_, p, hok⟩ | ⟨hp, g, hg, htag⟩ := hr.accepts c
    · rw [hrun] at hok
      cases hok
    · rw [hrun] at hg
      cases hg
      exact .inr ⟨fun h => hp h.1, f, rfl, htag⟩

theorem Accepts.word_bind {w : Width} {k : Nat → Reader β} {P : Nat → Bytes → Prop}
    (hk : ∀ n, (k n).Accepts (P n)) :
    (word w >>= k).Accepts fun bs =>
      w.size ≤ bs.length ∧ P (Bytes.littleEndian (bs.take w.size)) (bs.drop w.size) := by
  intro c
  rw [StateT.run_bind]
  obtain hn | hn := Nat.lt_or_ge c.rest.length w.size
  · rw [run_word_of_lt hn]
    exact .inr ⟨fun h => Nat.not_le.mpr hn h.1, _, rfl, by simp [FormatFault.isTag]⟩
  · rw [run_word_of_le hn]
    obtain ⟨hp, hok⟩ | ⟨hp, herror⟩ := hk _ ⟨c.offset + w.size, c.rest.drop w.size⟩
    · exact .inl ⟨⟨hn, hp⟩, hok⟩
    · exact .inr ⟨fun h => hp h.2, herror⟩

end Reader

namespace OrderTerms

def layout : Layout :=
  [.option 2, .word .u64, .word .u16, .option 3, .word .u64, .option 3, .word .u64, .word .u64,
    .word .u16, .word .u64, .word .u64, .key, .word .u16]

theorem isSome_side (n : Nat) : (Coded.ofCode? (α := Side) n).isSome ↔ n < 2 := by
  obtain _ | _ | n := n <;> simp [Coded.ofCode?]

theorem isSome_orderType (n : Nat) : (Coded.ofCode? (α := OrderType) n).isSome ↔ n < 3 := by
  obtain _ | _ | _ | n := n <;> simp [Coded.ofCode?]

theorem isSome_selfTrade (n : Nat) : (Coded.ofCode? (α := SelfTrade) n).isSome ↔ n < 3 := by
  obtain _ | _ | _ | n := n <;> simp [Coded.ofCode?]

theorem reader_follows : reader.Follows layout := by
  refine .cons (Reader.choice_follows isSome_side fun _ => rfl) fun _ => ?_
  refine .cons (Reader.int_follows .u64) fun _ => ?_
  refine .cons (Reader.int_follows .u16) fun _ => ?_
  refine .cons (Reader.choice_follows isSome_orderType fun _ => rfl) fun _ => ?_
  refine .cons (Reader.int_follows .u64) fun _ => ?_
  refine .cons (Reader.choice_follows isSome_selfTrade fun _ => rfl) fun _ => ?_
  refine .cons (Reader.int_follows .u64) fun _ => ?_
  refine .cons (Reader.int_follows .u64) fun _ => ?_
  refine .cons (Reader.int_follows .u16) fun _ => ?_
  refine .cons (Reader.int_follows .u64) fun _ => ?_
  refine .cons (Reader.int_follows .u64) fun _ => ?_
  refine .cons Reader.key_follows fun _ => ?_
  refine .cons (Reader.int_follows .u16) fun _ => ?_
  exact .pure _

end OrderTerms

namespace FirstDeposit

theorem amountsReader_accepts : amountsReader.Accepts fun bs => bs.length % 8 = 0 := by
  intro c
  have hrun : amountsReader.run c =
      (if c.rest.length % 8 = 0 then Reader.times (Reader.int .u64) (c.rest.length / 8)
        else throw (.depositsUneven c.rest.length)).run c := rfl
  rw [hrun]
  by_cases hmod : c.rest.length % 8 = 0
  · rw [if_pos hmod]
    have hfollows := Reader.times_follows (Reader.int_follows .u64) (c.rest.length / 8)
    have hsize : Layout.size (List.replicate (c.rest.length / 8) (.word .u64)) =
        c.rest.length / 8 * 8 := Layout.size_replicate _ _
    obtain ⟨_, hok⟩ | ⟨hp, _⟩ := hfollows.accepts c
    · exact .inl ⟨hmod, hok⟩
    · exact absurd ⟨by omega, Layout.named_replicate_bytes _ _ _⟩ hp
  · rw [if_neg hmod]
    exact .inr ⟨hmod, _, rfl, by simp [FormatFault.isTag]⟩

/-- The markets are as many as the first two bytes say, and what comes after them is cut into
amounts. -/
theorem reader_accepts : reader.Accepts fun bs =>
    12 + 32 * Bytes.littleEndian (bs.take 2) ≤ bs.length ∧
      (bs.length - 12 - 32 * Bytes.littleEndian (bs.take 2)) % 8 = 0 := by
  have htail (count : Nat) := Reader.Accepts.bind (Reader.int_follows .u64) fun feePeriod =>
    Reader.Accepts.bind (Reader.int_follows .u16) fun feeRatio =>
      Reader.Accepts.bind (Reader.times_follows Reader.key_follows count) fun markets =>
        amountsReader_accepts.map fun amounts =>
          ({ feePeriod, feeRatio, markets, amounts } : FirstDeposit)
  refine (Reader.Accepts.word_bind (w := .u16) htail).congr fun bs => ?_
  have hw (n : Nat) : Layout.size (List.replicate n .key) = n * 32 := Layout.size_replicate _ _
  have hn (n : Nat) (bs : Bytes) : Layout.Named (List.replicate n .key) bs :=
    Layout.named_replicate_bytes _ _ _
  simp only [hw, hn, Layout.size, Layout.Named, Piece.word, Piece.size, Piece.Named, Width.size,
    List.length_drop, and_true]
  omega

end FirstDeposit

namespace Tag

def byteAt (d : Bytes) (place : Nat) : Nat := (d.getD place 0).toNat

def marketCount (d : Bytes) : Nat := Bytes.littleEndian ((d.drop 33).take 2)

/-- What a buffer of a kind has to be like, apart from its tag and its least size. -/
def Fits (d : Bytes) : Tag → Prop
  | create =>
    45 + 32 * marketCount d ≤ d.length ∧ (d.length - 45 - 32 * marketCount d) % 8 = 0
  | createOrder => byteAt d 33 < 2 ∧ byteAt d 44 < 3 ∧ byteAt d 53 < 3
  | cancelOrder => byteAt d 33 < 2
  | _ => True

structure Grammar (t : Tag) (d : Bytes) : Prop where
  tagged : d.head? = some t.code
  full : t.minSize ≤ d.length
  fits : t.Fits d

end Tag

namespace Action

/-- The fields of a kind that has a fixed number of them. -/
def layout : Tag → Layout
  | .init => [.word .u32, .word .u16]
  | .create => []
  | .deposit => [.word .u64]
  | .createOrder => OrderTerms.layout
  | .cancelOrder => [.option 2, .word .u128]
  | .settleFunds => [.word .u64, .word .u64]
  | .redeem => [.word .u64]
  | .collectFees => []

theorem reader_follows {t : Tag} (h : t ≠ .create) : (reader t).Follows (layout t) := by
  cases t with
  | create => exact absurd rfl h
  | init =>
    exact .cons (Reader.int_follows .u32) fun _ => .cons (Reader.int_follows .u16) fun _ => .pure _
  | deposit => exact (Reader.int_follows .u64).map _
  | createOrder => exact OrderTerms.reader_follows.map _
  | cancelOrder =>
    exact .cons (Reader.choice_follows OrderTerms.isSome_side fun _ => rfl) fun _ =>
      .cons (Reader.int_follows .u128) fun _ => .pure _
  | settleFunds =>
    exact .cons (Reader.int_follows .u64) fun _ => .cons (Reader.int_follows .u64) fun _ => .pure _
  | redeem => exact (Reader.int_follows .u64).map _
  | collectFees => exact .pure _

theorem size_layout {t : Tag} (h : t ≠ .create) : 33 + (layout t).size = t.minSize := by
  cases t with
  | create => exact absurd rfl h
  | _ => rfl

theorem named_layout {t : Tag} (h : t ≠ .create) (d : Bytes) :
    (layout t).Named (d.drop 33) ↔ t.Fits d := by
  cases t with
  | create => exact absurd rfl h
  | _ =>
    simp [layout, OrderTerms.layout, Layout.Named, Piece.Named, Piece.size, Piece.word, Piece.key,
      Width.size, Tag.Fits, Tag.byteAt, List.drop_drop]

theorem reader_not_isCut {t : Tag} (ht : t ≠ .create) {d : Bytes} (hfull : t.minSize ≤ d.length)
    {f : FormatFault} (h : (reader t).run ⟨33, d.drop 33⟩ = .error f) : ¬f.isCut := by
  have houtcome := reader_follows ht ⟨33, d.drop 33⟩
  rw [h] at houtcome
  cases houtcome with
  | cut _ hsize =>
    have hlen : (d.drop 33).length = d.length - 33 := List.length_drop
    have hlayout := size_layout ht
    simp only [hlen] at hsize
    omega
  | unnamed hf _ => exact FormatFault.not_isCut_of_isUnnamed hf

/-- In a buffer of sufficient size, the fields of a kind are read exactly if it fits the kind. -/
theorem reader_fits {t : Tag} {d : Bytes} (hfull : t.minSize ≤ d.length) :
    (t.Fits d ∧ ∃ p, (reader t).run ⟨33, d.drop 33⟩ = .ok p) ∨
      (¬t.Fits d ∧ ∃ f, (reader t).run ⟨33, d.drop 33⟩ = .error f ∧ ¬f.isTag) := by
  by_cases ht : t = .create
  · subst ht
    have hlen : 45 ≤ d.length := hfull
    have hfits : Tag.Fits d .create ↔
        12 + 32 * Bytes.littleEndian ((d.drop 33).take 2) ≤ (d.drop 33).length ∧
          ((d.drop 33).length - 12 - 32 * Bytes.littleEndian ((d.drop 33).take 2)) % 8 = 0 := by
      rw [Tag.Fits, Tag.marketCount, List.length_drop]
      omega
    rw [hfits]
    exact (FirstDeposit.reader_accepts.map create) ⟨33, d.drop 33⟩
  · have hsize : (layout t).size ≤ (d.drop 33).length := by
      have hlayout := size_layout ht
      rw [List.length_drop]
      omega
    have hfits : t.Fits d ↔
        (layout t).size ≤ (d.drop 33).length ∧ (layout t).Named (d.drop 33) := by
      rw [named_layout ht]
      exact (and_iff_right hsize).symm
    rw [hfits]
    exact (reader_follows ht).accepts ⟨33, d.drop 33⟩

end Action

namespace Instruction

theorem decode_of_ne {code b : UInt8} (h : b ≠ code) (rest : Bytes) :
    decode code (b :: rest) = .error (.tagMismatch code b) := by
  simp [decode, Tag.expect, h, bind, Except.bind]

theorem decode_of_short {t : Tag} {rest : Bytes} (h : (t.code :: rest).length < t.minSize) :
    decode t.code (t.code :: rest) = .error (.instructionShort t (t.code :: rest).length) := by
  rw [decode_code_cons, Tag.body_of_lt h]
  rfl

theorem decode_of_full {t : Tag} {rest : Bytes} (h : t.minSize ≤ (t.code :: rest).length) :
    decode t.code (t.code :: rest) =
      ((Action.reader t).run ⟨33, (t.code :: rest).drop 33⟩).map fun p =>
        { seed := seedOf (t.code :: rest), action := p.1 } := by
  rw [decode_code_cons, Tag.body_of_le h]
  cases (Action.reader t).run ⟨33, (t.code :: rest).drop 33⟩ <;> rfl

theorem exists_decode_iff {t : Tag} {d : Bytes} :
    (∃ i, decode t.code d = .ok i) ↔ t.Grammar d := by
  constructor
  · rintro ⟨i, hi⟩
    obtain ⟨hhead, hbody, _⟩ := decode_eq_ok_iff.mp hi
    obtain ⟨hfull, c', hrun⟩ := Tag.body_eq_ok_iff.mp hbody
    obtain ⟨hfits, _⟩ | ⟨_, f, hf, _⟩ := Action.reader_fits hfull
    · exact ⟨hhead, hfull, hfits⟩
    · cases hf.symm.trans hrun
  · rintro ⟨hhead, hfull, hfits⟩
    obtain ⟨_, p, hp⟩ | ⟨hunfit, _⟩ := Action.reader_fits hfull
    · exact ⟨⟨seedOf d, p.1⟩,
        decode_eq_ok_iff.mpr ⟨hhead, Tag.body_eq_ok_iff.mpr ⟨hfull, p.2, hp⟩, rfl⟩⟩
    · exact absurd hfits hunfit

/-- The buffers of a kind are read. Any other is refused: for its tag exactly if its first byte is
another than the kind's, and never for a field that is cut off if the fields are of fixed size. -/
theorem decode_grammar (t : Tag) (d : Bytes) :
    (t.Grammar d ∧ ∃ i, decode t.code d = .ok i) ∨
      (¬t.Grammar d ∧ ∃ f, decode t.code d = .error f ∧
        (f.isTag ↔ ∃ b, d.head? = some b ∧ b ≠ t.code) ∧ (t ≠ .create → ¬f.isCut)) := by
  cases d with
  | nil =>
    refine .inr ⟨fun h => absurd h.tagged nofun, .emptyInstruction, rfl, ?_⟩
    simp [FormatFault.isTag, FormatFault.isCut]
  | cons b rest =>
    by_cases hb : b = t.code
    · subst hb
      obtain hl | hl := Nat.lt_or_ge (t.code :: rest).length t.minSize
      · refine .inr ⟨fun h => Nat.not_le.mpr hl h.full, _, decode_of_short hl, ?_⟩
        simp [FormatFault.isTag, FormatFault.isCut]
      · rw [decode_of_full hl]
        obtain ⟨hfits, p, hp⟩ | ⟨hfits, f, hf, htag⟩ := Action.reader_fits hl
        · exact .inl ⟨⟨rfl, hl, hfits⟩, _, by rw [hp]; rfl⟩
        · refine .inr ⟨fun h => hfits h.fits, f, by rw [hf]; rfl, ?_, ?_⟩
          · simp [htag]
          · exact fun ht => Action.reader_not_isCut ht hl hf
    · refine .inr ⟨fun h => hb (Option.some.inj h.tagged), _, decode_of_ne hb rest, ?_⟩
      simp [FormatFault.isTag, FormatFault.isCut, hb]

end Instruction

end SignalPool
