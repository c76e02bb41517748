import SignalPool.Base58

namespace SignalPool

structure Key where
  bytes : Bytes
  size_eq : bytes.length = 32
  deriving DecidableEq

namespace Key

/-- The key whose bytes, first byte highest, are the number. -/
def ofNat (n : Nat) : Key := ⟨(Bytes.ofNat 32 n).reverse, by simp⟩

def zero : Key := ofNat 0

def ofBytes? (bs : Bytes) : Option Key :=
  if h : bs.length = 32 then some ⟨bs, h⟩ else none

@[simp] theorem ofBytes?_bytes (k : Key) : ofBytes? k.bytes = some k := by
  simp [ofBytes?, k.size_eq]

theorem bytes_inj {k l : Key} : k.bytes = l.bytes ↔ k = l := by
  cases k; cases l; simp

def text (k : Key) : String := String.ofList (Base58.encode k.bytes)

def form : Base58.Form := ⟨32, 44, "String is the wrong size", "Invalid Base58 string"⟩

abbrev TextFault := Base58.TextFault form

def parse (t : Text) : Except TextFault Key := (form.parse t).map fun bs => ⟨bs.1, bs.2⟩

end Key

end SignalPool
