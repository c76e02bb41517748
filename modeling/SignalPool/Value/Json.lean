import SignalPool.Decimal
import SignalPool.Table
import SignalPool.Text.Quoted
import SignalPool.Value

namespace SignalPool.Value.Json

abbrev Scan (α : Type) := List Char → Option (α × List Char)

def skip (cs : List Char) : List Char :=
  cs.dropWhile fun c => c = ' ' || c = '\t' || c = '\n' || c = '\r'

/-! ### Texts -/

def escaped? : Char → Option Char
  | '\x22' => some '\x22'
  | '\\' => some '\\'
  | '/' => some '/'
  | 'b' => some '\x08'
  | 'f' => some '\x0c'
  | 'n' => some '\n'
  | 'r' => some '\r'
  | 't' => some '\t'
  | _ => none

/-- The codes of a text up to its closing quote, on top of those already read, last one first. -/
def codes : List Nat → Scan (List Nat)
  | _, [] => none
  | ns, '\x22' :: cs => some (ns.reverse, cs)
  | ns, '\\' :: 'u' :: a :: b :: c :: d :: cs =>
    match [a, b, c, d].mapM Hex.digit? with
    | some ds => codes (Radix.value 16 ds :: ns) cs
    | none => none
  | ns, '\\' :: c :: cs =>
    match escaped? c with
    | some e => codes (e.toNat :: ns) cs
    | none => none
  | ns, c :: cs => if c < ' ' then none else codes (c.toNat :: ns) cs

/-- The code points of a text that is written in halves: a high half and a low half after it are
one. -/
def joined : List Nat → List Nat
  | [] => []
  | [n] => [n]
  | n :: m :: ns =>
    if 0xd800 ≤ n ∧ n < 0xdc00 ∧ 0xdc00 ≤ m ∧ m < 0xe000 then
      (0x10000 + (n - 0xd800) * 0x400 + (m - 0xdc00)) :: joined ns
    else n :: joined (m :: ns)

def text (cs : List Char) : Option (Text × List Char) := do
  let (ns, cs) ← codes [] cs
  return (⟨joined ns⟩, cs)

/-! ### Numbers -/

def digits (cs : List Char) : List Nat × List Char :=
  ((cs.takeWhile Char.isDigit).map (fun c => c.toNat - '0'.toNat), cs.dropWhile Char.isDigit)

def someDigits (cs : List Char) : Option (List Nat × List Char) :=
  let (ds, rest) := digits cs
  if ds = [] then none else some (ds, rest)

def fraction : Scan (Option (List Nat))
  | '.' :: cs => do
    let (ds, cs) ← someDigits cs
    return (some ds, cs)
  | cs => some (none, cs)

def power : Scan Int
  | '-' :: cs => do
    let (ds, cs) ← someDigits cs
    return (-(Radix.value 10 ds : Int), cs)
  | '+' :: cs => do
    let (ds, cs) ← someDigits cs
    return ((Radix.value 10 ds : Int), cs)
  | cs => do
    let (ds, cs) ← someDigits cs
    return ((Radix.value 10 ds : Int), cs)

def exponent : Scan (Option Int)
  | 'e' :: cs | 'E' :: cs => do
    let (n, cs) ← power cs
    return (some n, cs)
  | cs => some (none, cs)

def number (negative : Bool) (cs : List Char) : Option (Value × List Char) := do
  let (whole, cs) ← someDigits cs
  if whole.head? = some 0 ∧ whole ≠ [0] then none
  else
    let (part, cs) ← fraction cs
    let (scale, cs) ← exponent cs
    if part.isNone ∧ scale.isNone then
      let n := Radix.value 10 whole
      return (.integer (if negative then -(n : Int) else n), cs)
    else
      let part := part.getD []
      let n := Radix.value 10 (whole ++ part)
      return (.real (.ofDecimal negative n (scale.getD 0 - part.length)), cs)

/-! ### Values -/

def scalar : Scan Value
  | '\x22' :: cs => do
    let (s, cs) ← text cs
    return (.text s, cs)
  | 'n' :: 'u' :: 'l' :: 'l' :: cs => some (.null, cs)
  | 't' :: 'r' :: 'u' :: 'e' :: cs => some (.bool true, cs)
  | 'f' :: 'a' :: 'l' :: 's' :: 'e' :: cs => some (.bool false, cs)
  | 'N' :: 'a' :: 'N' :: cs => some (.real ⟨0x7ff8000000000000⟩, cs)
  | 'I' :: 'n' :: 'f' :: 'i' :: 'n' :: 'i' :: 't' :: 'y' :: cs =>
    some (.real (.infinity false), cs)
  | '-' :: 'I' :: 'n' :: 'f' :: 'i' :: 'n' :: 'i' :: 't' :: 'y' :: cs =>
    some (.real (.infinity true), cs)
  | '-' :: cs => number true cs
  | cs => number false cs

mutual

/-- The value that comes next; `fuel` bounds the steps. -/
def value : Nat → Scan Value
  | 0, _ => none
  | fuel + 1, cs =>
    match skip cs with
    | '[' :: cs =>
      match skip cs with
      | ']' :: cs => some (.list [], cs)
      | cs => do
        let (vs, cs) ← items fuel cs
        return (.list vs, cs)
    | '{' :: cs =>
      match skip cs with
      | '}' :: cs => some (.record [], cs)
      | cs => do
        let (fields, cs) ← entries fuel cs
        return (.record (Table.ofList fields), cs)
    | cs => scalar cs

def items : Nat → Scan (List Value)
  | 0, _ => none
  | fuel + 1, cs => do
    let (v, cs) ← value fuel cs
    match skip cs with
    | ']' :: cs => return ([v], cs)
    | ',' :: cs =>
      let (vs, cs) ← items fuel cs
      return (v :: vs, cs)
    | _ => none

def entries : Nat → Scan (List (Text × Value))
  | 0, _ => none
  | fuel + 1, cs => do
    let (name, cs) ←
      match skip cs with
      | '\x22' :: cs => text cs
      | _ => none
    let (v, cs) ←
      match skip cs with
      | ':' :: cs => value fuel cs
      | _ => none
    match skip cs with
    | '}' :: cs => return ([(name, v)], cs)
    | ',' :: cs =>
      let (fields, cs) ← entries fuel cs
      return ((name, v) :: fields, cs)
    | _ => none

end

/-! ### Writing -/

def writtenCode (n : Nat) : List Char :=
  if n = 0x22 ∨ n = 0x5c then ['\\', Text.charOf n]
  else if n < 0x20 ∨ Text.isHalf n then '\\' :: 'u' :: Text.hexDigits 4 n
  else [Text.charOf n]

def writtenText (t : Text) : String :=
  String.ofList ('\x22' :: t.codes.flatMap writtenCode ++ ['\x22'])

def writtenReal (x : Binary64) : String :=
  match x.datum with
  | .nan => "NaN"
  | .infinite negative => if negative then "-Infinity" else "Infinity"
  | .finite negative significand exponent =>
    let places := (-exponent).toNat
    let (n, count) := Decimal.dropZeros places (significand <<< exponent.toNat * Nat.pow 5 places)
    let ds := Decimal.pointed (Decimal.digitChars n) (places - count)
    let sign := if negative then ['-'] else []
    String.ofList (sign ++ ds ++ if count = places then ['.', '0'] else [])

mutual

def written : Value → String
  | .null => "null"
  | .bool b => if b then "true" else "false"
  | .integer n => toString n
  | .real x => writtenReal x
  | .text t => writtenText t
  | .list vs => "[" ++ ",".intercalate (writtenItems vs) ++ "]"
  | .record fields => "\x7b" ++ ",".intercalate (writtenEntries fields) ++ "\x7d"

def writtenItems : List Value → List String
  | [] => []
  | v :: vs => written v :: writtenItems vs

def writtenEntries : List (Text × Value) → List String
  | [] => []
  | (name, v) :: fields => (writtenText name ++ ":" ++ written v) :: writtenEntries fields

end

example :
    joined [0xd83d, 0xde00] = ['😀'.toNat] ∧ joined [0xd83d, 0x41] = [0xd83d, 0x41] := by
  decide

example : writtenText ⟨[0x61, 0xdc00]⟩ = "\x22a\\udc00\x22" ∧
    writtenReal (.ofRatio true 1 2) = "-0.5" := by
  decide +kernel

end Json

/-- The value that a document denotes. A record keeps the order of its fields; of fields of one
name the last counts. Every two steps take a character, so the bound is never met. -/
def ofJson? (document : String) : Option Value := do
  let cs := document.toList
  let (v, rest) ← Json.value (2 * cs.length + 2) cs
  if (Json.skip rest).isEmpty then return v else none

def json (v : Value) : String := Json.written v

end SignalPool.Value
