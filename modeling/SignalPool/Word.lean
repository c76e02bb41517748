namespace SignalPool

/-- A buffer, first byte first. -/
abbrev Bytes := List UInt8

namespace Bytes

def littleEndian : Bytes → Nat
  | [] => 0
  | b :: bs => b.toNat + 256 * littleEndian bs

def bigEndian (bs : Bytes) : Nat :=
  bs.foldl (fun acc b => acc * 256 + b.toNat) 0

/-- How many numbers a given count of bytes can hold. -/
def capacity : Nat → Nat
  | 0 => 1
  | size + 1 => 256 * capacity size

def ofNat : Nat → Nat → Bytes
  | 0, _ => []
  | size + 1, n => UInt8.ofNat n :: ofNat size (n / 256)

@[simp] theorem littleEndian_nil : littleEndian [] = 0 := rfl

@[simp] theorem littleEndian_cons (b : UInt8) (bs : Bytes) :
    littleEndian (b :: bs) = b.toNat + 256 * littleEndian bs := rfl

@[simp] theorem length_ofNat (size n : Nat) : (ofNat size n).length = size := by
  induction size generalizing n with
  | zero => rfl
  | succ size ih => simp [ofNat, ih]

theorem littleEndian_lt (bs : Bytes) : littleEndian bs < capacity bs.length := by
  induction bs with
  | nil => exact Nat.one_pos
  | cons b bs ih =>
    have hb : b.toNat < 256 := b.toNat_lt
    rw [littleEndian_cons, List.length_cons, capacity]
    omega

theorem littleEndian_ofNat (size n : Nat) (h : n < capacity size) :
    littleEndian (ofNat size n) = n := by
  induction size generalizing n with
  | zero =>
    have hn : n = 0 := Nat.lt_one_iff.mp h
    simp [ofNat, hn]
  | succ size ih =>
    have hd : n / 256 < capacity size := by
      rw [capacity] at h
      omega
    have hb : (UInt8.ofNat n).toNat = n % 256 := by simp
    rw [ofNat, littleEndian_cons, ih _ hd, hb]
    omega

theorem ofNat_littleEndian (bs : Bytes) : ofNat bs.length (littleEndian bs) = bs := by
  induction bs with
  | nil => rfl
  | cons b bs ih =>
    have hb : b.toNat < 256 := b.toNat_lt
    have hd : (b.toNat + 256 * littleEndian bs) / 256 = littleEndian bs := by omega
    have hm : UInt8.ofNat (b.toNat + 256 * littleEndian bs) = b := by
      apply UInt8.toNat_inj.mp
      have : (UInt8.ofNat (b.toNat + 256 * littleEndian bs)).toNat =
          (b.toNat + 256 * littleEndian bs) % 256 := by simp
      rw [this]
      omega
    rw [littleEndian_cons, List.length_cons, ofNat, hd, hm, ih]

theorem bigEndian_append_singleton (bs : Bytes) (b : UInt8) :
    bigEndian (bs ++ [b]) = bigEndian bs * 256 + b.toNat := by
  simp [bigEndian, List.foldl_append]

theorem bigEndian_reverse (bs : Bytes) : bigEndian bs.reverse = littleEndian bs := by
  induction bs with
  | nil => rfl
  | cons b bs ih =>
    rw [List.reverse_cons, bigEndian_append_singleton, ih, littleEndian_cons]
    omega

end Bytes

inductive Width where
  | u8 | u16 | u32 | u64 | u128
  deriving DecidableEq, Repr

namespace Width

def size : Width → Nat
  | u8 => 1
  | u16 => 2
  | u32 => 4
  | u64 => 8
  | u128 => 16

def bound (w : Width) : Nat := Bytes.capacity w.size

def name : Width → String
  | u8 => "u8"
  | u16 => "u16"
  | u32 => "u32"
  | u64 => "u64"
  | u128 => "u128"

end Width

end SignalPool
