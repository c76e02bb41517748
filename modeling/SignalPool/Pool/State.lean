import SignalPool.Pool.Header
import SignalPool.Text.Numeral

namespace SignalPool.Pool

structure State where
  header : Header
  markets : List Key
  assets : List Key
  deriving DecidableEq

def decodeMarkets (data : Bytes) (count : Int) (offset : Nat) : Except FormatFault (List Key) :=
  let expected := offset + count * 32
  if count < 0 ∨ data.length < expected then
    .error (.marketListShort data.length expected count)
  else (Reader.times Reader.key count.toNat).readAt data offset

inductive MarketsFault where
  | unwritable
  | format (f : FormatFault)
  deriving DecidableEq, Repr

namespace MarketsFault

def message : MarketsFault → String
  | unwritable => Text.Numeral.unwritable
  | format f => f.message

end MarketsFault

/-- The same for a caller's count, which can put the end of the list where no number is written. -/
def marketsAt (data : Bytes) (count : Int) (offset : Nat) : Except MarketsFault (List Key) :=
  match decodeMarkets data count offset with
  | .ok markets => .ok markets
  | .error f =>
    .error (if Text.Numeral.isWritable (offset + count * 32) then .format f else .unwritable)

/-- The mints of the used slots; a slot of zeros is unused. -/
def decodeAssets (data : Bytes) : Except FormatFault (List Key) :=
  if data.length % 32 ≠ 0 then .error (.assetListUneven data.length)
  else do
    let slots ← (Reader.times Reader.key (data.length / 32)).readAt data 0
    return slots.filter (· ≠ Key.zero)

namespace State

def decode (data : Bytes) : Except FormatFault State := do
  let header ← Header.decode data
  let markets ← decodeMarkets data header.marketCount Header.size
  let assets ← decodeAssets (data.drop (Header.size + header.marketCount.toNat * 32))
  return { header, markets, assets }

end State

end SignalPool.Pool
