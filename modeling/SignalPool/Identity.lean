import SignalPool.Key

namespace SignalPool.Identity

def poolProgram : Key :=
  .ofNat 0x4b0ce308247fe4348133d173584b845c8aa2dcbf42fc078ed31cdf030bfb2dbd

def venueProgram : Key :=
  .ofNat 0x850f2d6e02a47af824d09ab69dc42d70cb28cbfa249fb7ee57b9d256c12762ef

def tokenProgram : Key :=
  .ofNat 0x06ddf6e1d765a193d9cbe146ceeb79ac1cb485ed5f5b37913a8cf5857eff00a9

def associatedTokenProgram : Key :=
  .ofNat 0x8c97258f4e2489f1bb3d1029148e0d830b5a1399daff1084048e7bd8dbe9f859

def systemProgram : Key := .zero

def rentSysvar : Key :=
  .ofNat 0x06a7d517192c5c51218cc94c3d4af17f58daee089ba1fd44e3dbd98a00000000

def clockSysvar : Key :=
  .ofNat 0x06a7d51718c774c928566398691d5eb68b5eb8a39b4b6d5c73555b2100000000

/-- Where the pool program sends its own share of the fees. -/
def feeReceiver : Key :=
  .ofNat 0x1dcd6965e51e97903aeb295859e25274e4dfc636eb9d133293422d10e1882684

def buyAndBurn : Key :=
  .ofNat 0x299b3909a2c5bd99f1ccdd4a3c241d5277cdb5b859091031563cac13cbd08449

example :
    [poolProgram, venueProgram, tokenProgram, associatedTokenProgram, systemProgram, rentSysvar,
      clockSysvar, feeReceiver, buyAndBurn].map Key.text =
      ["63xyXHpA6EVF69kRmEbXAr8aBEkhgpaNUSRoTQyi5Rwr",
        "9xQeWvG816bUx9EPjHmaT23yvVM2ZWbrrpZb9PusVFin",
        "TokenkegQfeZyiNwAJbNbGKPFXCWuBvf9Ss623VQ5DA",
        "ATokenGPvbdGVxr1b2hvZbsiqW5xWH25efTNsLJA8knL",
        "11111111111111111111111111111111",
        "SysvarRent111111111111111111111111111111111",
        "SysvarC1ock11111111111111111111111111111111",
        "31LVSggbVz4VcwBSPdtK8HJ3Lt1cKTJUVQTRNNYMfqBq",
        "3oQzjfjzUkJ5qHsERk2JPEpAKo34dxAQjUriBqursfxU"] := by
  decide +kernel

end SignalPool.Identity
