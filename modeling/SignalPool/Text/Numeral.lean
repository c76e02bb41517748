import SignalPool.Radix
import SignalPool.Text.Blank
import SignalPool.Text.Quoted

namespace SignalPool.Text.Numeral

def zeros : List Nat :=
  [0x0030, 0x0660, 0x06f0, 0x07c0, 0x0966, 0x09e6, 0x0a66, 0x0ae6, 0x0b66, 0x0be6, 0x0c66, 0x0ce6,
    0x0d66, 0x0de6, 0x0e50, 0x0ed0, 0x0f20, 0x1040, 0x1090, 0x17e0, 0x1810, 0x1946, 0x19d0, 0x1a80,
    0x1a90, 0x1b50, 0x1bb0, 0x1c40, 0x1c50, 0xa620, 0xa8d0, 0xa900, 0xa9d0, 0xa9f0, 0xaa50, 0xabf0,
    0xff10, 0x104a0, 0x10d30, 0x11066, 0x110f0, 0x11136, 0x111d0, 0x112f0, 0x11450, 0x114d0,
    0x11650, 0x116c0, 0x11730, 0x118e0, 0x11950, 0x11c50, 0x11d50, 0x11da0, 0x16a60, 0x16ac0,
    0x16b50, 0x1d7ce, 0x1d7d8, 0x1d7e2, 0x1d7ec, 0x1d7f6, 0x1e140, 0x1e2f0, 0x1e950, 0x1fbf0]

def digit? (c : Char) : Option Nat :=
  (zeros.find? (fun z => z ≤ c.toNat && c.toNat < z + 10)).map (c.toNat - ·)

/-- Digits, with at most one underscore between two of them. -/
def digits? : List Char → Option (List Nat)
  | [] => none
  | [c] => (digit? c).map ([·])
  | c :: '_' :: cs => do
    let d ← digit? c
    let ds ← digits? cs
    return d :: ds
  | c :: cs => do
    let d ← digit? c
    let ds ← digits? cs
    return d :: ds

def isPart (c : Char) : Bool := c = '_' || (digit? c).isSome

/-- Most digits that a number has, zeros in front among them. -/
def mostDigits : Nat := 4300

inductive Fault where
  | notANumber (t : Text)
  | tooLong (digits : Nat)
  deriving DecidableEq, Repr

namespace Fault

def message : Fault → String
  | notANumber t => "invalid literal for int() with base 10: " ++ quotedWithin 200 t
  | tooLong digits =>
    s!"Exceeds the limit ({mostDigits} digits) for integer string conversion: " ++
      s!"value has {digits} digits; use sys.set_int_max_str_digits() to increase the limit"

end Fault

def isWritable (n : Int) : Bool := n.natAbs < Nat.pow 10 mostDigits

def unwritable : String :=
  s!"Exceeds the limit ({mostDigits} digits) for integer string conversion; " ++
    "use sys.set_int_max_str_digits() to increase the limit"

/-- A number without a sign. The digits in front are counted before anything is said of what
follows them. -/
def natural (t : Text) (cs : List Char) : Except Fault Nat :=
  let run := cs.takeWhile isPart
  match digits? run with
  | none => .error (.notANumber t)
  | some ds =>
    if mostDigits < ds.length then .error (.tooLong ds.length)
    else if run.length < cs.length then .error (.notANumber t)
    else .ok (Radix.value 10 ds)

def signed (t : Text) : List Char → Except Fault Int
  | '-' :: cs => (natural t cs).map (fun n => -(n : Int))
  | '+' :: cs => (natural t cs).map (fun n => (n : Int))
  | cs => (natural t cs).map (fun n => (n : Int))

/-- A whole number with an optional sign and blanks around it. The replacement of a half is neither
a digit, a sign nor a blank, and so no part of a number. -/
def parse (t : Text) : Except Fault Int := signed t (trimMargins t.chars)

example : digits? ['1', '_', '0'] = some [1, 0] ∧ digits? ['1', '_'] = none := by decide +kernel

end SignalPool.Text.Numeral
