import SignalPool.Text

namespace SignalPool.Text

/-- The blank characters: line ends, separators and spaces of every width. -/
def blanks : List Nat :=
  [0x09, 0x0a, 0x0b, 0x0c, 0x0d, 0x1c, 0x1d, 0x1e, 0x1f, 0x20, 0x85, 0xa0, 0x1680, 0x2000, 0x2001,
    0x2002, 0x2003, 0x2004, 0x2005, 0x2006, 0x2007, 0x2008, 0x2009, 0x200a, 0x2028, 0x2029, 0x202f,
    0x205f, 0x3000]

def isBlankCode (n : Nat) : Bool := blanks.contains n

def isBlank (c : Char) : Bool := isBlankCode c.toNat

/-- A character that may stand around a number: a blank, but none of the four separators of
records. -/
def isMargin (c : Char) : Bool := isBlank c && !(0x1c ≤ c.toNat && c.toNat ≤ 0x1f)

def trimEnd (t : Text) : Text := ⟨(t.codes.reverse.dropWhile isBlankCode).reverse⟩

def trimMargins (cs : List Char) : List Char :=
  ((cs.dropWhile isMargin).reverse.dropWhile isMargin).reverse

end SignalPool.Text
