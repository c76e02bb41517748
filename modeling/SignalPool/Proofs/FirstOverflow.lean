import Mathlib.Algebra.Ring.Int.Defs
import Mathlib.Algebra.Ring.Nat
import SignalPool.Proofs.RoundTrip

namespace SignalPool

theorem Bytes.capacity_eq (size : Nat) : (capacity size : Int) = 2 ^ (8 * size) := by
  induction size with
  | zero => rfl
  | succ size ih =>
    rw [capacity, Int.natCast_mul, ih, Nat.mul_succ, pow_add, mul_comm]
    rfl

theorem Text.Numeral.isWritable_iff {n : Int} :
    isWritable n = true ↔ n.natAbs < 10 ^ mostDigits := by
  rw [isWritable, Nat.pow_eq, decide_eq_true_eq]

namespace Overflow

theorem fault_eq_overflow_iff {o o' : Overflow} :
    o.fault = .overflow o' ↔ o.value.natAbs < 10 ^ Text.Numeral.mostDigits ∧ o = o' := by
  rw [fault, ← Text.Numeral.isWritable_iff]
  cases Text.Numeral.isWritable o.value <;> simp

theorem fault_eq_unwritable_iff {o : Overflow} :
    o.fault = .unwritable ↔ 10 ^ Text.Numeral.mostDigits ≤ o.value.natAbs := by
  rw [fault, ← Nat.not_lt, ← Text.Numeral.isWritable_iff]
  cases Text.Numeral.isWritable o.value <;> simp

end Overflow

/-- A number that is due on the wire, and the width that it gets there. -/
structure Entry where
  width : Width
  value : Int
  deriving DecidableEq

namespace Entry

def InRange (n : Entry) : Prop := 0 ≤ n.value ∧ n.value < 2 ^ (8 * n.width.size)

instance : DecidablePred InRange := fun n =>
  inferInstanceAs (Decidable (0 ≤ n.value ∧ n.value < 2 ^ (8 * n.width.size)))

def overflow (n : Entry) : Overflow := ⟨.word n.width, n.value⟩

/-- What is said about the first of some entries that is out of range. -/
def firstOverflow (ns : List Entry) : Option Overflow :=
  (ns.find? fun n => ¬n.InRange).map overflow

theorem firstOverflow_cons_of_inRange {n : Entry} (h : n.InRange) (ns : List Entry) :
    firstOverflow (n :: ns) = firstOverflow ns := by
  simp [firstOverflow, h]

theorem firstOverflow_cons_of_not_inRange {n : Entry} (h : ¬n.InRange) (ns : List Entry) :
    firstOverflow (n :: ns) = some n.overflow := by
  simp [firstOverflow, h]

theorem inRange_iff {w : Width} {value : Int} :
    InRange ⟨w, value⟩ ↔ 0 ≤ value ∧ value < w.bound := by
  rw [InRange, Width.bound, Bytes.capacity_eq]

end Entry

namespace Field

def number? : Field → Option Entry
  | word w value => some ⟨w, value⟩
  | key _ => none

variable {f : Field} {fs : List Field} {r : RangeFault}

theorem encodeAll_cons_of_error (h : f.encode = .error r) (fs : List Field) :
    encodeAll (f :: fs) = .error r := by
  simp [encodeAll, h]

theorem encodeAll_cons_error_iff {bs : Bytes} (h : f.encode = .ok bs) :
    encodeAll (f :: fs) = .error r ↔ encodeAll fs = .error r := by
  simp only [encodeAll, h]
  cases encodeAll fs with
  | error e => rfl
  | ok rest => simp

theorem encode_word_of_inRange {w : Width} {value : Int} (h : Entry.InRange ⟨w, value⟩) :
    (word w value).encode = .ok (Bytes.ofNat w.size value.toNat) :=
  if_pos (Entry.inRange_iff.mp h)

theorem encode_word_of_not_inRange {w : Width} {value : Int} (h : ¬Entry.InRange ⟨w, value⟩) :
    (word w value).encode = .error (Entry.overflow ⟨w, value⟩).fault :=
  if_neg fun hr => h (Entry.inRange_iff.mpr hr)

theorem encodeAll_eq_error_iff : encodeAll fs = .error r ↔
    ∃ o, Entry.firstOverflow (fs.filterMap number?) = some o ∧ o.fault = r := by
  induction fs with
  | nil => simp [Entry.firstOverflow]
  | cons f fs ih =>
    cases f with
    | key k =>
      rw [encodeAll_cons_error_iff (show (key k).encode = .ok k.bytes from rfl), ih]
      rfl
    | word w value =>
      rw [List.filterMap_cons_some (show (word w value).number? = some ⟨w, value⟩ from rfl)]
      by_cases h : Entry.InRange ⟨w, value⟩
      · rw [encodeAll_cons_error_iff (encode_word_of_inRange h), ih,
          Entry.firstOverflow_cons_of_inRange h]
      · rw [encodeAll_cons_of_error (encode_word_of_not_inRange h),
          Entry.firstOverflow_cons_of_not_inRange h, Except.error.injEq]
        simp

theorem forall_fits_iff :
    (∀ f ∈ fs, f.Fits) ↔ ∀ n ∈ fs.filterMap number?, n.InRange := by
  simp only [List.mem_filterMap, forall_exists_index, and_imp]
  constructor
  · rintro h n (⟨w, value⟩ | k) hf hn
    · cases hn
      exact Entry.inRange_iff.mpr (h _ hf)
    · cases hn
  · rintro h (⟨w, value⟩ | k) hf
    · exact Entry.inRange_iff.mp (h _ _ hf rfl)
    · trivial

end Field

namespace Action

/-- The numbers of an action in wire order. -/
def entries : Action → List Entry
  | init a => [⟨.u32, a.maxAssets⟩, ⟨.u16, a.markets⟩]
  | create d =>
    ⟨.u16, d.markets.length⟩ :: ⟨.u64, d.feePeriod⟩ :: ⟨.u16, d.feeRatio⟩ ::
      d.amounts.map (⟨.u64, ·⟩)
  | deposit amount => [⟨.u64, amount⟩]
  | createOrder o =>
    [⟨.u8, o.side.toInt⟩, ⟨.u64, o.limitPrice⟩, ⟨.u16, o.assetRatio⟩, ⟨.u8, o.orderType.toInt⟩,
      ⟨.u64, o.clientId⟩, ⟨.u8, o.selfTrade.toInt⟩, ⟨.u64, o.sourceIndex⟩, ⟨.u64, o.targetIndex⟩,
      ⟨.u16, o.marketIndex⟩, ⟨.u64, o.coinLotSize⟩, ⟨.u64, o.pcLotSize⟩, ⟨.u16, o.matchLimit⟩]
  | cancelOrder c => [⟨.u8, c.side.toInt⟩, ⟨.u128, c.orderId⟩]
  | settleFunds s => [⟨.u64, s.pcIndex⟩, ⟨.u64, s.coinIndex⟩]
  | redeem amount => [⟨.u64, amount⟩]
  | collectFees => []

theorem filterMap_keys (ks : List Key) : (ks.map Field.key).filterMap Field.number? = [] := by
  simp [List.filterMap_map, Field.number?, Function.comp_def]

theorem filterMap_amounts (amounts : List Int) :
    (amounts.map (Field.word .u64)).filterMap Field.number? = amounts.map (⟨.u64, ·⟩) := by
  simp [List.filterMap_map, Field.number?, Function.comp_def]

theorem filterMap_fields (a : Action) : a.fields.filterMap Field.number? = a.entries := by
  cases a with
  | create d =>
    rw [fields, List.filterMap_append, List.filterMap_append, filterMap_keys, filterMap_amounts]
    rfl
  | _ => rfl

end Action

namespace Instruction

variable {i : Instruction}

theorem encode_of_seed_ne (h : i.seed.length ≠ 32) :
    i.encode = .error (.format (.seedSize i.seed.length)) := by
  rw [encode, Seed.check_eq_error_iff.mpr ⟨h, rfl⟩]
  rfl

theorem encode_of_seed_eq (h : i.seed.length = 32) :
    i.encode = ((Field.encodeAll i.action.fields).mapError .range).map
      fun body => i.tag.code :: i.seed ++ body := by
  rw [encode, Seed.check_eq_ok_iff.mpr ⟨h, rfl⟩]
  cases Field.encodeAll i.action.fields <;> rfl

theorem encode_eq_range_iff {r : RangeFault} : i.encode = .error (.range r) ↔
    i.seed.length = 32 ∧ ∃ o, Entry.firstOverflow i.action.entries = some o ∧ o.fault = r := by
  rw [← Action.filterMap_fields, ← Field.encodeAll_eq_error_iff]
  by_cases hs : i.seed.length = 32
  · rw [encode_of_seed_eq hs]
    cases Field.encodeAll i.action.fields <;> simp [Except.mapError, Except.map, hs]
  · simp [encode_of_seed_ne hs, hs]

theorem exists_format_iff : (∃ f, i.encode = .error (.format f)) ↔ i.seed.length ≠ 32 := by
  by_cases hs : i.seed.length = 32
  · rw [encode_of_seed_eq hs]
    cases Field.encodeAll i.action.fields <;> simp [Except.mapError, Except.map, hs]
  · simp [encode_of_seed_ne hs, hs]

theorem length_of_encode {d : Bytes} (h : i.encode = .ok d) : d.length = i.action.wireSize := by
  obtain ⟨hs, body, hbody, rfl⟩ := encode_eq_ok_iff.mp h
  rw [← Action.sizeAll_eq_wireSize, ← Field.length_of_encodeAll hbody]
  simp only [List.cons_append, List.length_cons, List.length_append, hs]
  omega

theorem encode_eq_overflow_iff {o : Overflow} : i.encode = .error (.range (.overflow o)) ↔
    i.seed.length = 32 ∧ Entry.firstOverflow i.action.entries = some o ∧
      o.value.natAbs < 10 ^ Text.Numeral.mostDigits := by
  rw [encode_eq_range_iff]
  refine and_congr_right fun _ => ?_
  constructor
  · rintro ⟨o', hfirst, hfault⟩
    obtain ⟨hwritable, rfl⟩ := Overflow.fault_eq_overflow_iff.mp hfault
    exact ⟨hfirst, hwritable⟩
  · rintro ⟨hfirst, hwritable⟩
    exact ⟨o, hfirst, Overflow.fault_eq_overflow_iff.mpr ⟨hwritable, rfl⟩⟩

theorem encode_eq_unwritable_iff : i.encode = .error (.range .unwritable) ↔
    i.seed.length = 32 ∧ ∃ o, Entry.firstOverflow i.action.entries = some o ∧
      10 ^ Text.Numeral.mostDigits ≤ o.value.natAbs := by
  simp only [encode_eq_range_iff, Overflow.fault_eq_unwritable_iff]

/-- The seed is checked first, then the numbers in wire order. The first that is out of range is
reported, unless it has too many digits for its report to be written. What passes is written to as
many bytes as the kind and its lists take up. -/
theorem encode_validates (i : Instruction) :
    ((∃ f, i.encode = .error (.format f)) ↔ i.seed.length ≠ 32) ∧
      (∀ o, i.encode = .error (.range (.overflow o)) ↔ i.seed.length = 32 ∧
        Entry.firstOverflow i.action.entries = some o ∧
          o.value.natAbs < 10 ^ Text.Numeral.mostDigits) ∧
      (i.encode = .error (.range .unwritable) ↔ i.seed.length = 32 ∧
        ∃ o, Entry.firstOverflow i.action.entries = some o ∧
          10 ^ Text.Numeral.mostDigits ≤ o.value.natAbs) ∧
      ((∃ d, i.encode = .ok d ∧ d.length = i.action.wireSize) ↔
        i.seed.length = 32 ∧ ∀ n ∈ i.action.entries, n.InRange) := by
  refine ⟨exists_format_iff, fun o => encode_eq_overflow_iff, encode_eq_unwritable_iff, ?_⟩
  rw [← Action.filterMap_fields, ← Field.forall_fits_iff, ← exists_encode_iff]
  exact exists_congr fun d => and_iff_left_of_imp length_of_encode

/-- A deposit that has one digit too many is out of range, but the report of it fails. -/
theorem encode_unwritable :
    let i : Instruction := ⟨List.replicate 32 0, .deposit (10 ^ 4300 : Nat)⟩
    Entry.firstOverflow i.action.entries = some ⟨.word .u64, (10 ^ 4300 : Nat)⟩ ∧
      i.encode = .error (.range .unwritable) := by
  intro i
  have hfirst : Entry.firstOverflow i.action.entries = some ⟨.word .u64, (10 ^ 4300 : Nat)⟩ := by
    decide +kernel
  have hlong : 10 ^ Text.Numeral.mostDigits ≤ ((10 ^ 4300 : Nat) : Int).natAbs := by
    have hdigits : 4300 = Text.Numeral.mostDigits := rfl
    rw [Int.natAbs_natCast, hdigits]
  exact ⟨hfirst, encode_eq_unwritable_iff.mpr ⟨rfl, _, hfirst, hlong⟩⟩

end Instruction

end SignalPool
