import SignalPool.FeeRatio
import SignalPool.Field
import SignalPool.Pool.Status
import SignalPool.Reader
import SignalPool.Seed

namespace SignalPool.Pool

structure Header where
  venueProgram : Key
  seed : Bytes
  signalProvider : Key
  status : Status
  marketCount : Int
  feeRatio : Int
  lastFeeCollection : Int
  feePeriod : Int
  deriving DecidableEq

namespace Header

def size : Nat := 117

def feePercentage (h : Header) : Binary64 := FeeRatio.percentage h.feeRatio

def reader : Reader Header := do
  let venueProgram ← Reader.key
  let seed ← Reader.chunk 32 .keyCut
  let signalProvider ← Reader.key
  let byte ← Reader.word .u8
  let status ← StateT.lift (Status.decode byte)
  let marketCount ← Reader.int .u16
  let feeRatio ← Reader.int .u16
  let lastFeeCollection ← Reader.int .u64
  let feePeriod ← Reader.int .u64
  return { venueProgram, seed, signalProvider, status, marketCount, feeRatio, lastFeeCollection,
           feePeriod }

def decode (data : Bytes) : Except FormatFault Header :=
  if data.length < size then .error (.headerShort data.length)
  else reader.readAt data 0

def tailFields (h : Header) (status : Nat) : List Field :=
  [.word .u8 status, .word .u16 h.marketCount, .word .u16 h.feeRatio,
    .word .u64 h.lastFeeCollection, .word .u64 h.feePeriod]

def encode (h : Header) : Except EncodeFault Bytes := do
  let seed ← (Seed.check h.seed).mapError .format
  let status ← h.status.encode.mapError .range
  let tail ← (Field.encodeAll (h.tailFields status)).mapError .range
  return h.venueProgram.bytes ++ seed ++ h.signalProvider.bytes ++ tail

end Header

end SignalPool.Pool
