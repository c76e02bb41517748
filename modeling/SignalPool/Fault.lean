import SignalPool.Hex
import SignalPool.Tag
import SignalPool.Text.Numeral
import SignalPool.Word

namespace SignalPool

inductive FormatFault where
  | wordCut (width : Width) (offset got : Nat)
  | reversedCut (offset : Nat)
  | keyCut (offset got : Nat)
  | seedSize (got : Nat)
  | headerShort (got : Nat)
  | marketListShort (got : Nat) (expected count : Int)
  | assetListUneven (got : Nat)
  | marketShort (got : Nat)
  | mintShort (got : Nat)
  | emptyInstruction
  | unknownTag (code : UInt8)
  | tagMismatch (expected got : UInt8)
  | instructionShort (tag : Tag) (got : Nat)
  | depositsUneven (got : Nat)
  | sideByte (code : Nat)
  | orderTypeByte (code : Nat)
  | selfTradeByte (code : Nat)
  | statusByte (code : Int)
  | accountMissing (position : Nat)
  | zeroCoinLot
  deriving DecidableEq, Repr

namespace FormatFault

def detail : FormatFault → String
  | wordCut .u128 offset _ => s!"not enough bytes for u128 at offset {offset}"
  | wordCut width offset got =>
    let need := width.size
    s!"not enough bytes at offset {offset}: need {need}, have {got}"
  | reversedCut offset => s!"not enough bytes for reversed u64 at offset {offset}"
  | keyCut offset got =>
    s!"not enough bytes for Pubkey at offset {offset}: need 32 bytes, have {got}"
  | seedSize got => s!"pool seed must be 32 bytes, got {got}"
  | headerShort got => s!"PoolHeader data too short: {got} bytes (expected 117)"
  | marketListShort got expected count =>
    s!"market list too short: {got} bytes (expected {expected} for {count} markets)"
  | assetListUneven got => s!"asset list length {got} is not a multiple of 32"
  | marketShort got => s!"Market data too short: {got} bytes (expected 365)"
  | mintShort got => s!"Mint data too short: {got} bytes (expected 45)"
  | emptyInstruction => "instruction data is empty"
  | unknownTag code => s!"unknown instruction tag {code}"
  | tagMismatch expected got =>
    s!"instruction tag mismatch: expected {expected}, got {got}"
  | instructionShort tag got =>
    let name := tag.name
    let need := tag.minSize
    s!"{name} data too short: {got} bytes (expected {need})"
  | depositsUneven got =>
    s!"trailing deposit amounts are not a multiple of 8 bytes: {got}"
  | sideByte code => s!"invalid side byte: {code}"
  | orderTypeByte code => s!"invalid order type byte: {code}"
  | selfTradeByte code => s!"invalid self trade behavior byte: {code}"
  | statusByte code =>
    let hex := Hex.padded 4 code
    s!"pool status byte {hex} could not be parsed"
  | accountMissing position => s!"instruction has no account at position {position}"
  | zeroCoinLot => "market coin lot size is zero"

def message (f : FormatFault) : String := "Invalid format: " ++ f.detail

end FormatFault

inductive Quantity where
  | word (w : Width)
  | pendingOrders
  deriving DecidableEq, Repr

namespace Quantity

def name : Quantity → String
  | word w => w.name
  | pendingOrders => "pending order count"

end Quantity

structure Overflow where
  quantity : Quantity
  value : Int
  deriving DecidableEq, Repr

namespace Overflow

def message (o : Overflow) : String :=
  let name := o.quantity.name
  let value := o.value
  s!"{name} value out of range: {value}"

end Overflow

/-- Why a number is not encoded. The report of one that is out of range states it, and fails itself
if it has too many digits to be written. -/
inductive RangeFault where
  | overflow (o : Overflow)
  | unwritable
  deriving DecidableEq, Repr

namespace RangeFault

def message : RangeFault → String
  | overflow o => o.message
  | unwritable => Text.Numeral.unwritable

end RangeFault

def Overflow.fault (o : Overflow) : RangeFault :=
  if Text.Numeral.isWritable o.value then .overflow o else .unwritable

inductive EncodeFault where
  | format (f : FormatFault)
  | range (f : RangeFault)
  deriving DecidableEq, Repr

namespace EncodeFault

def message : EncodeFault → String
  | format f => f.message
  | range f => f.message

end EncodeFault

namespace Width

def encode (w : Width) (value : Int) : Except RangeFault Bytes :=
  if 0 ≤ value ∧ value < w.bound then .ok (Bytes.ofNat w.size value.toNat)
  else .error (Overflow.fault ⟨.word w, value⟩)

theorem encode_eq_ok_iff {w : Width} {value : Int} {bs : Bytes} :
    w.encode value = .ok bs ↔
      0 ≤ value ∧ value < w.bound ∧ bs = Bytes.ofNat w.size value.toNat := by
  unfold encode
  split
  · rename_i h
    simp only [Except.ok.injEq, h.1, h.2, true_and]
    exact eq_comm
  · rename_i h
    simp only [reduceCtorEq, false_iff]
    exact fun hb => h ⟨hb.1, hb.2.1⟩

theorem encode_natCast {w : Width} {n : Nat} (h : n < w.bound) :
    w.encode n = .ok (Bytes.ofNat w.size n) := by
  rw [encode_eq_ok_iff]
  exact ⟨Int.natCast_nonneg n, by exact_mod_cast h, by simp⟩

end Width

end SignalPool
