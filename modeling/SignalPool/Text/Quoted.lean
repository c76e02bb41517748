import SignalPool.Hex
import SignalPool.Text
import SignalPool.Text.Hidden

namespace SignalPool.Text

def hexDigits (width n : Nat) : List Char :=
  let ds := Hex.digitsOf n
  List.replicate (width - ds.length) '0' ++ ds

def escapeCode (n : Nat) : List Char :=
  if n < 0x100 then '\\' :: 'x' :: hexDigits 2 n
  else if n < 0x10000 then '\\' :: 'u' :: hexDigits 4 n
  else '\\' :: 'U' :: hexDigits 8 n

def singleQuote : Char := '\x27'

def doubleQuote : Char := '\x22'

def quotedCode (quote : Char) (n : Nat) : List Char :=
  if n = quote.toNat || n = '\\'.toNat then ['\\', charOf n]
  else if n = '\t'.toNat then ['\\', 't']
  else if n = '\n'.toNat then ['\\', 'n']
  else if n = '\r'.toNat then ['\\', 'r']
  else if isHidden n then escapeCode n
  else [charOf n]

def quoteOf (t : Text) : Char :=
  if t.codes.contains singleQuote.toNat && !t.codes.contains doubleQuote.toNat then doubleQuote
  else singleQuote

def quoted (t : Text) : String :=
  let quote := quoteOf t
  String.ofList (quote :: t.codes.flatMap (quotedCode quote) ++ [quote])

/-- The first `width` characters of a quoted text; a text that is cut has no quote at its end. -/
def quotedWithin (width : Nat) (t : Text) : String :=
  String.ofList ((quoted t).toList.take width)

example :
    quoted "\tx" = "'\\tx'" ∧ quoted ⟨[0x35, 0xd800]⟩ = "'5\\ud800'" ∧
      quotedWithin 3 "abc" = "'ab" := by
  decide +kernel

end SignalPool.Text
