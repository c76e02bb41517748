import SignalPool.Field
import SignalPool.Instruction
import SignalPool.Reader
import SignalPool.Seed

namespace SignalPool

namespace OrderTerms

def fields (o : OrderTerms) : List Field :=
  [.word .u8 o.side.toInt, .word .u64 o.limitPrice, .word .u16 o.assetRatio,
    .word .u8 o.orderType.toInt, .word .u64 o.clientId, .word .u8 o.selfTrade.toInt,
    .word .u64 o.sourceIndex, .word .u64 o.targetIndex, .word .u16 o.marketIndex,
    .word .u64 o.coinLotSize, .word .u64 o.pcLotSize, .key o.targetMint,
    .word .u16 o.matchLimit]

end OrderTerms

namespace Action

def fields : Action → List Field
  | init a => [.word .u32 a.maxAssets, .word .u16 a.markets]
  | create d =>
    [.word .u16 d.markets.length, .word .u64 d.feePeriod, .word .u16 d.feeRatio] ++
      d.markets.map .key ++ d.amounts.map (.word .u64)
  | deposit amount => [.word .u64 amount]
  | createOrder o => o.fields
  | cancelOrder c => [.word .u8 c.side.toInt, .word .u128 c.orderId]
  | settleFunds s => [.word .u64 s.pcIndex, .word .u64 s.coinIndex]
  | redeem amount => [.word .u64 amount]
  | collectFees => []

end Action

namespace Instruction

/-- The wire buffer: the tag byte, the seed, then the fields. The seed is checked first. -/
def encode (i : Instruction) : Except EncodeFault Bytes := do
  let seed ← (Seed.check i.seed).mapError .format
  let body ← (Field.encodeAll i.action.fields).mapError .range
  return i.tag.code :: seed ++ body

theorem encode_eq_ok_iff {i : Instruction} {d : Bytes} :
    i.encode = .ok d ↔ i.seed.length = 32 ∧
      ∃ body, Field.encodeAll i.action.fields = .ok body ∧ d = i.tag.code :: i.seed ++ body := by
  by_cases hs : i.seed.length = 32
  · have hc : Seed.check i.seed = .ok i.seed := Seed.check_eq_ok_iff.mpr ⟨hs, rfl⟩
    rw [encode, hc]
    cases hb : Field.encodeAll i.action.fields with
    | error o =>
      constructor
      · intro h
        cases h
      · rintro ⟨_, body, h, _⟩
        cases h
    | ok body =>
      constructor
      · intro h
        cases h
        exact ⟨hs, body, rfl, rfl⟩
      · rintro ⟨_, _, h, rfl⟩
        cases h
        rfl
  · have hc : Seed.check i.seed = .error (.seedSize i.seed.length) :=
      Seed.check_eq_error_iff.mpr ⟨hs, rfl⟩
    rw [encode, hc]
    constructor
    · intro h
      cases h
    · intro h
      exact absurd h.1 hs

end Instruction

namespace OrderTerms

def reader : Reader OrderTerms := do
  let side ← Reader.choice .sideByte
  let limitPrice ← Reader.int .u64
  let assetRatio ← Reader.int .u16
  let orderType ← Reader.choice .orderTypeByte
  let clientId ← Reader.int .u64
  let selfTrade ← Reader.choice .selfTradeByte
  let sourceIndex ← Reader.int .u64
  let targetIndex ← Reader.int .u64
  let marketIndex ← Reader.int .u16
  let coinLotSize ← Reader.int .u64
  let pcLotSize ← Reader.int .u64
  let targetMint ← Reader.key
  let matchLimit ← Reader.int .u16
  return { side, limitPrice, assetRatio, orderType, clientId, selfTrade, sourceIndex, targetIndex,
           marketIndex, coinLotSize, pcLotSize, targetMint, matchLimit }

end OrderTerms

namespace FirstDeposit

/-- The amounts fill the rest of the buffer, eight bytes each. -/
def amountsReader : Reader (List Int) := do
  let left := (← get).rest.length
  if left % 8 = 0 then Reader.times (Reader.int .u64) (left / 8)
  else throw (.depositsUneven left)

def reader : Reader FirstDeposit := do
  let count ← Reader.word .u16
  let feePeriod ← Reader.int .u64
  let feeRatio ← Reader.int .u16
  let markets ← Reader.times Reader.key count
  let amounts ← amountsReader
  return { feePeriod, feeRatio, markets, amounts }

end FirstDeposit

namespace Action

def reader : Tag → Reader Action
  | .init => do
    let maxAssets ← Reader.int .u32
    let markets ← Reader.int .u16
    return .init { maxAssets, markets }
  | .create => .create <$> FirstDeposit.reader
  | .deposit => .deposit <$> Reader.int .u64
  | .createOrder => .createOrder <$> OrderTerms.reader
  | .cancelOrder => do
    let side ← Reader.choice .sideByte
    let orderId ← Reader.int .u128
    return .cancelOrder { side, orderId }
  | .settleFunds => do
    let pcIndex ← Reader.int .u64
    let coinIndex ← Reader.int .u64
    return .settleFunds { pcIndex, coinIndex }
  | .redeem => .redeem <$> Reader.int .u64
  | .collectFees => pure .collectFees

end Action

namespace Tag

def peek : Bytes → Except FormatFault Tag
  | [] => .error .emptyInstruction
  | b :: _ =>
    match ofCode? b with
    | some t => .ok t
    | none => .error (.unknownTag b)

def expect (code : UInt8) : Bytes → Except FormatFault Unit
  | [] => .error .emptyInstruction
  | b :: _ => if b = code then .ok () else .error (.tagMismatch code b)

def body {α : Type} (t : Tag) (r : Reader α) (data : Bytes) : Except FormatFault α :=
  if data.length < t.minSize then .error (.instructionShort t data.length)
  else r.readAt data 33

end Tag

namespace Instruction

def seedOf (data : Bytes) : Bytes := (data.drop 1).take 32

/-- Reads a buffer whose first byte must be the expected one. -/
def decode (expected : UInt8) (data : Bytes) : Except FormatFault Instruction := do
  Tag.expect expected data
  let tag ← Tag.peek data
  let action ← tag.body (Action.reader tag) data
  return { seed := seedOf data, action }

theorem decode_code_cons (t : Tag) (rest : Bytes) :
    decode t.code (t.code :: rest) =
      (t.body (Action.reader t) (t.code :: rest)).map fun action =>
        { seed := seedOf (t.code :: rest), action } := by
  have hpeek : Tag.peek (t.code :: rest) = .ok t := by
    rw [Tag.peek, Tag.ofCode?_code]
  have hexpect : Tag.expect t.code (t.code :: rest) = .ok () := if_pos rfl
  rw [decode, hexpect, hpeek]
  cases h : t.body (Action.reader t) (t.code :: rest) with
  | error f => simp [bind, Except.bind, h, Except.map]
  | ok action => simp [bind, Except.bind, h, Except.map, pure, Except.pure]

end Instruction

namespace OrderTerms

def decode (data : Bytes) : Except FormatFault OrderTerms := do
  Tag.expect Tag.createOrder.code data
  Tag.createOrder.body reader data

end OrderTerms

end SignalPool
