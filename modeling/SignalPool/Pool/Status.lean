import SignalPool.Fault

namespace SignalPool.Pool

inductive StatusKind where
  | uninitialized | unlocked | locked | pendingOrder | lockedPendingOrder
  deriving DecidableEq, Repr

namespace StatusKind

def name : StatusKind → String
  | uninitialized => "UNINITIALIZED"
  | unlocked => "UNLOCKED"
  | locked => "LOCKED"
  | pendingOrder => "PENDING_ORDER"
  | lockedPendingOrder => "LOCKED_PENDING_ORDER"

def counts : StatusKind → Bool
  | pendingOrder | lockedPendingOrder => true
  | _ => false

end StatusKind

structure Status where
  kind : StatusKind
  pendingOrders : Int
  deriving DecidableEq, Repr

namespace Status

def uninitialized : Status := ⟨.uninitialized, 0⟩

def unlocked : Status := ⟨.unlocked, 0⟩

def locked : Status := ⟨.locked, 0⟩

def isLocked (s : Status) : Bool :=
  s.kind = .locked || s.kind = .lockedPendingOrder

/-- A counting mode has one to sixty-three pending orders, any other none. -/
def Valid (s : Status) : Prop :=
  if s.kind.counts then 1 ≤ s.pendingOrders ∧ s.pendingOrders ≤ 63 else s.pendingOrders = 0

instance (s : Status) : Decidable s.Valid := by
  unfold Valid
  infer_instance

inductive Fault where
  | range (f : RangeFault)
  | countless (kind : StatusKind)
  deriving DecidableEq, Repr

namespace Fault

def message : Fault → String
  | range f => f.message
  | countless kind => kind.name ++ " does not carry a pending order count"

end Fault

def make (kind : StatusKind) (pendingOrders : Int) : Except Fault Status :=
  if Valid ⟨kind, pendingOrders⟩ then .ok ⟨kind, pendingOrders⟩
  else if kind.counts then .error (.range (Overflow.fault ⟨.pendingOrders, pendingOrders⟩))
  else .error (.countless kind)

/-- The two high bits give the mode, the six low bits the pending orders less one. -/
def encode (s : Status) : Except RangeFault Nat :=
  match s.kind with
  | .uninitialized => .ok 0
  | .unlocked => .ok 0x3f
  | .locked => .ok 0x80
  | .pendingOrder => counted 0x40
  | .lockedPendingOrder => counted 0xc0
where
  counted (flag : Nat) : Except RangeFault Nat :=
    if 1 ≤ s.pendingOrders ∧ s.pendingOrders ≤ 63 then .ok (flag + (s.pendingOrders - 1).toNat)
    else .error (Overflow.fault ⟨.pendingOrders, s.pendingOrders⟩)

/-- A counting mode whose low bits are all set would have sixty-four pending orders. -/
def counting (byte : Nat) (kind : StatusKind) : Except FormatFault Status :=
  if byte % 64 = 63 then .error (.statusByte byte)
  else .ok ⟨kind, byte % 64 + 1⟩

def ofByte (byte : Nat) : Except FormatFault Status :=
  match byte / 64 with
  | 0 => .ok (if byte = 0 then uninitialized else unlocked)
  | 1 => counting byte .pendingOrder
  | 2 => .ok locked
  | 3 => counting byte .lockedPendingOrder
  | _ => .error (.statusByte byte)

def decode (n : Int) : Except FormatFault Status :=
  match n with
  | .ofNat byte => ofByte byte
  | .negSucc _ => .error (.statusByte n)

end Status

end SignalPool.Pool
