import SignalPool.Radix
import SignalPool.Text.Encoding
import SignalPool.Word

namespace SignalPool.Base58

def alphabet : List Char :=
  ['1', '2', '3', '4', '5', '6', '7', '8', '9',
   'A', 'B', 'C', 'D', 'E', 'F', 'G', 'H', 'J', 'K', 'L', 'M', 'N', 'P', 'Q', 'R', 'S', 'T', 'U',
   'V', 'W', 'X', 'Y', 'Z',
   'a', 'b', 'c', 'd', 'e', 'f', 'g', 'h', 'i', 'j', 'k', 'm', 'n', 'o', 'p', 'q', 'r', 's', 't',
   'u', 'v', 'w', 'x', 'y', 'z']

theorem length_alphabet : alphabet.length = 58 := rfl

theorem nodup_alphabet : alphabet.Nodup := by decide

def digit? (c : Char) : Option Nat := alphabet.idxOf? c

def symbol (d : Nat) : Char := alphabet.getD d '1'

/-- Every leading zero byte is written as a leading one, the rest as a number to base 58. -/
def encode (bs : Bytes) : List Char :=
  List.replicate (bs.takeWhile (· = 0)).length '1' ++
    (Radix.digits 58 bs.bigEndian).map symbol

def digitsOf : List Char → Except Char (List Nat)
  | [] => .ok []
  | c :: cs =>
    match digit? c with
    | none => .error c
    | some d => (digitsOf cs).map (d :: ·)

def bytesOf (ds : List Nat) : Bytes :=
  List.replicate (ds.takeWhile (· = 0)).length 0 ++
    (Radix.digits 256 (Radix.value 58 ds)).map UInt8.ofNat

def decode (cs : List Char) : Except Char Bytes :=
  (digitsOf cs).map bytesOf

/-- Texts for a fixed number of bytes: how many bytes, the length of the longest text, and what is
said of a text of another size and of one with a character outside the alphabet. -/
structure Form where
  size : Nat
  longest : Nat
  sizeMessage : String
  characterMessage : String

inductive TextFault (form : Form) where
  | gap (g : Text.Gap)
  | wrongSize
  | badCharacter
  deriving DecidableEq, Repr

namespace TextFault

def message {form : Form} : TextFault form → String
  | gap g => g.message
  | wrongSize => form.sizeMessage
  | badCharacter => form.characterMessage

end TextFault

/-- A text that has bytes is read exactly as it stands: too long a text is refused before its
characters are looked at, and a text that denotes another number of bytes after them. -/
def Form.parse (form : Form) (t : Text) :
    Except (TextFault form) { bs : Bytes // bs.length = form.size } :=
  match Text.encodable .utf8 t with
  | .error g => .error (.gap g)
  | .ok cs =>
    if form.longest < (String.ofList cs).utf8ByteSize then .error .wrongSize
    else
      match decode cs with
      | .error _ => .error .badCharacter
      | .ok bs => if h : bs.length = form.size then .ok ⟨bs, h⟩ else .error .wrongSize

end SignalPool.Base58
