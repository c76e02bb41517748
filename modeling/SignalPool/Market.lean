import SignalPool.Choice
import SignalPool.Reader

namespace SignalPool

structure Market where
  address : Key
  coinMint : Key
  coinVault : Key
  coinLotSize : Int
  pcMint : Key
  pcVault : Key
  pcLotSize : Int
  vaultSignerNonce : Int
  requestQueue : Key
  eventQueue : Key
  bids : Key
  asks : Key
  deriving DecidableEq

namespace Market

/-- The mint that an order of the given side pays into the venue. -/
def sourceMint (m : Market) (side : Choice Side) : Key :=
  if side = .option .bid then m.pcMint else m.coinMint

def targetMint (m : Market) (side : Choice Side) : Key :=
  if side = .option .bid then m.coinMint else m.pcMint

def size : Nat := 365

def decode (data : Bytes) (address : Key) : Except FormatFault Market :=
  if data.length < size then .error (.marketShort data.length)
  else do
    let coinMint ← Reader.key.readAt data 53
    let coinVault ← Reader.key.readAt data 117
    let coinLotSize ← Reader.reversedWord.readAt data 349
    let pcMint ← Reader.key.readAt data 85
    let pcVault ← Reader.key.readAt data 165
    let pcLotSize ← Reader.reversedWord.readAt data 357
    let nonce ← Reader.reversedWord.readAt data 45
    let requestQueue ← Reader.key.readAt data 221
    let eventQueue ← Reader.key.readAt data 253
    let bids ← Reader.key.readAt data 285
    let asks ← Reader.key.readAt data 317
    return { address, coinMint, coinVault, coinLotSize, pcMint, pcVault, pcLotSize,
             vaultSignerNonce := nonce, requestQueue, eventQueue, bids, asks }

end Market

namespace Mint

def decimalsOffset : Nat := 44

def decodeDecimals (data : Bytes) : Except FormatFault Int :=
  if data.length ≤ decimalsOffset then .error (.mintShort data.length)
  else (Reader.int .u8).readAt data decimalsOffset

end Mint

end SignalPool
