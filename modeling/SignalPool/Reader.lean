import SignalPool.Choice
import SignalPool.Fault
import SignalPool.Key

namespace SignalPool

structure Cursor where
  offset : Nat
  rest : Bytes
  deriving DecidableEq, Repr

/-- A step through a buffer: a value and the place after it, or why it does not decode. -/
abbrev Reader (α : Type) := StateT Cursor (Except FormatFault) α

namespace Reader

variable {α : Type}

def chunk (n : Nat) (short : Nat → Nat → FormatFault) : Reader Bytes := fun c =>
  if n ≤ c.rest.length then .ok (c.rest.take n, ⟨c.offset + n, c.rest.drop n⟩)
  else .error (short c.offset c.rest.length)

theorem chunk_append (short : Nat → Nat → FormatFault) (offset : Nat) (bs rest : Bytes) :
    chunk bs.length short ⟨offset, bs ++ rest⟩ = .ok (bs, ⟨offset + bs.length, rest⟩) := by
  simp [chunk]

theorem run_chunk_of_le {n : Nat} {short : Nat → Nat → FormatFault} {c : Cursor}
    (h : n ≤ c.rest.length) :
    (chunk n short).run c = .ok (c.rest.take n, ⟨c.offset + n, c.rest.drop n⟩) :=
  if_pos h

theorem run_chunk_of_lt {n : Nat} {short : Nat → Nat → FormatFault} {c : Cursor}
    (h : c.rest.length < n) : (chunk n short).run c = .error (short c.offset c.rest.length) :=
  if_neg (Nat.not_le.mpr h)

def word (w : Width) : Reader Nat :=
  Bytes.littleEndian <$> chunk w.size (.wordCut w)

/-- Eight bytes taken in reverse and read from the high end. -/
def reversedWord : Reader Nat :=
  (fun bs => Bytes.bigEndian bs.reverse) <$> chunk 8 (fun offset _ => .reversedCut offset)

def key : Reader Key := fun c =>
  if h : 32 ≤ c.rest.length then
    .ok (⟨c.rest.take 32, by simp [h]⟩, ⟨c.offset + 32, c.rest.drop 32⟩)
  else .error (.keyCut c.offset c.rest.length)

theorem run_key_of_le {c : Cursor} (h : 32 ≤ c.rest.length) :
    key.run c =
      .ok (⟨c.rest.take 32, List.length_take_of_le h⟩, ⟨c.offset + 32, c.rest.drop 32⟩) :=
  dif_pos h

theorem run_key_of_lt {c : Cursor} (h : c.rest.length < 32) :
    key.run c = .error (.keyCut c.offset c.rest.length) :=
  dif_neg (Nat.not_le.mpr h)

def int (w : Width) : Reader Int := (fun n : Nat => (n : Int)) <$> word w

def choice [Coded α] (bad : Nat → FormatFault) : Reader (Choice α) := do
  let n ← word .u8
  match Coded.ofCode? (α := α) n with
  | some a => return .option a
  | none => throw (bad n)

def times (r : Reader α) : Nat → Reader (List α)
  | 0 => pure []
  | n + 1 => do
    let a ← r
    let as ← times r n
    return a :: as

def readAt (r : Reader α) (data : Bytes) (offset : Nat) : Except FormatFault α :=
  (r.run ⟨offset, data.drop offset⟩).map Prod.fst

inductive PlaceFault where
  | unaddressable
  | format (f : FormatFault)
  deriving DecidableEq, Repr

namespace PlaceFault

def message : PlaceFault → String
  | unaddressable => "Python int too large to convert to C ssize_t"
  | format f => f.message

end PlaceFault

def addressBound : Nat := 1 <<< 63

/-- The number of some width at an offset. Numbers of up to one machine word are addressed by a
machine word. -/
def wordAt (w : Width) (data : Bytes) (offset : Nat) : Except PlaceFault Nat :=
  if w ≠ .u128 ∧ addressBound ≤ offset then .error .unaddressable
  else ((word w).readAt data offset).mapError .format

theorem run_word_of_le {w : Width} {c : Cursor} (h : w.size ≤ c.rest.length) :
    (word w).run c = .ok (Bytes.littleEndian (c.rest.take w.size),
      ⟨c.offset + w.size, c.rest.drop w.size⟩) := by
  rw [word, StateT.run_map, run_chunk_of_le h]
  rfl

theorem run_word_of_lt {w : Width} {c : Cursor} (h : c.rest.length < w.size) :
    (word w).run c = .error (.wordCut w c.offset c.rest.length) := by
  rw [word, StateT.run_map, run_chunk_of_lt h]
  rfl

theorem word_append (w : Width) (n offset : Nat) (rest : Bytes) (h : n < w.bound) :
    (word w).run ⟨offset, Bytes.ofNat w.size n ++ rest⟩ = .ok (n, ⟨offset + w.size, rest⟩) := by
  have hc := chunk_append (.wordCut w) offset (Bytes.ofNat w.size n) rest
  rw [Bytes.length_ofNat] at hc
  have hv := Bytes.littleEndian_ofNat w.size n h
  simp only [word, StateT.run_map]
  rw [show (chunk w.size (.wordCut w)).run _ = _ from hc]
  show Except.ok (Bytes.littleEndian (Bytes.ofNat w.size n), _) = _
  rw [hv]

theorem key_append (k : Key) (offset : Nat) (rest : Bytes) :
    key.run ⟨offset, k.bytes ++ rest⟩ = .ok (k, ⟨offset + 32, rest⟩) := by
  have hl : 32 ≤ (k.bytes ++ rest).length := by
    rw [List.length_append, k.size_eq]
    omega
  have ht : (k.bytes ++ rest).take 32 = k.bytes := List.take_left' k.size_eq
  have hd : (k.bytes ++ rest).drop 32 = rest := List.drop_left' k.size_eq
  simp only [StateT.run, key, hl, ↓reduceDIte, ht, hd]

end Reader

end SignalPool
