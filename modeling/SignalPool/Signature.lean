import SignalPool.Base58

namespace SignalPool

structure Signature where
  bytes : Bytes
  size_eq : bytes.length = 64
  deriving DecidableEq

namespace Signature

def text (s : Signature) : String := String.ofList (Base58.encode s.bytes)

def form : Base58.Form :=
  ⟨64, 88, "string decoded to wrong size for signature", "failed to decode string to signature"⟩

abbrev TextFault := Base58.TextFault form

def parse (t : Text) : Except TextFault Signature := (form.parse t).map fun bs => ⟨bs.1, bs.2⟩

end Signature

end SignalPool
