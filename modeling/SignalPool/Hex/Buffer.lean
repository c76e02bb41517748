import SignalPool.Hex
import SignalPool.Text
import SignalPool.Word

/-!
Buffers as text, two digits to base sixteen for each byte. Reading takes either case and passes
over blanks between bytes; writing uses the lower case and no blanks. What is written is read back.
-/

namespace SignalPool.Hex

structure Misplaced where
  place : Nat
  deriving DecidableEq, Repr

namespace Misplaced

def message (m : Misplaced) : String :=
  let place := m.place
  s!"non-hexadecimal number found in fromhex() arg at position {place}"

end Misplaced

def isGap (c : Char) : Bool := c = ' ' || 9 ≤ c.toNat && c.toNat ≤ 13

def byteOf (high low : Nat) : UInt8 := .ofNat (16 * high + low)

def decodeFrom (place : Nat) : List Char → Except Misplaced Bytes
  | [] => .ok []
  | [a] =>
    if isGap a then .ok []
    else .error ⟨if (digit? a).isSome then place + 1 else place⟩
  | a :: b :: cs =>
    if isGap a then decodeFrom (place + 1) (b :: cs)
    else
      match digit? a, digit? b with
      | some high, some low => (decodeFrom (place + 2) cs).map (byteOf high low :: ·)
      | some _, none => .error ⟨place + 1⟩
      | none, _ => .error ⟨place⟩

/-- A character past the ASCII ones is refused before anything else is looked at. -/
def decode (t : Text) : Except Misplaced Bytes :=
  match t.codes.findIdx? (128 ≤ ·) with
  | some place => .error ⟨place⟩
  | none => decodeFrom 0 t.chars

def encodeByte (b : UInt8) : List Char :=
  [Nat.digitChar (b.toNat / 16), Nat.digitChar (b.toNat % 16)]

def encode (bs : Bytes) : List Char := bs.flatMap encodeByte

theorem digit?_digitChar : ∀ n < 16, digit? (Nat.digitChar n) = some n := by decide

theorem isGap_digitChar : ∀ n < 16, isGap (Nat.digitChar n) = false := by decide

theorem byteOf_div_mod (b : UInt8) : byteOf (b.toNat / 16) (b.toNat % 16) = b := by
  rw [byteOf, Nat.div_add_mod, UInt8.ofNat_toNat]

theorem decodeFrom_encode (bs : Bytes) (place : Nat) : decodeFrom place (encode bs) = .ok bs := by
  induction bs generalizing place with
  | nil => rfl
  | cons b bs ih =>
    have hb : b.toNat < 256 := b.toNat_lt
    have hh : b.toNat / 16 < 16 := by omega
    have hl : b.toNat % 16 < 16 := Nat.mod_lt _ (by decide)
    have he : encode (b :: bs) =
        Nat.digitChar (b.toNat / 16) :: Nat.digitChar (b.toNat % 16) :: encode bs := rfl
    rw [he, decodeFrom, isGap_digitChar _ hh, digit?_digitChar _ hh, digit?_digitChar _ hl]
    simp only [Bool.false_eq_true, if_false, ih, byteOf_div_mod, Except.map]

example : decode "0f 1A" = .ok [0x0f, 0x1a] ∧ decode "0f1" = .error ⟨3⟩ := ⟨rfl, rfl⟩

end SignalPool.Hex
