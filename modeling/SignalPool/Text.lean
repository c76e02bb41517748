namespace SignalPool

/-- A text as its code points. Half of a surrogate pair may stand alone in it. -/
structure Text where
  codes : List Nat
  deriving DecidableEq, Repr

namespace Text

def ofString (s : String) : Text := ⟨s.toList.map Char.toNat⟩

instance : Coe String Text := ⟨ofString⟩

instance : Append Text := ⟨fun s t => ⟨s.codes ++ t.codes⟩⟩

def empty : Text := ⟨[]⟩

def isHalf (n : Nat) : Bool := 0xd800 ≤ n && n < 0xe000

def replacement : Char := '\ufffd'

def charOf (n : Nat) : Char := if n.isValidChar then Char.ofNat n else replacement

def chars (t : Text) : List Char := t.codes.map charOf

theorem charOf_toNat (c : Char) : charOf c.toNat = c := by
  have h : c.toNat.isValidChar := c.valid
  rw [charOf, if_pos h, Char.ofNat_toNat]

theorem chars_ofString (s : String) : (ofString s).chars = s.toList := by
  simp only [chars, ofString, List.map_map]
  exact List.map_id'' charOf_toNat s.toList

end Text

end SignalPool
