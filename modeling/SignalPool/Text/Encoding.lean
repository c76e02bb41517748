import SignalPool.Text.Quoted

namespace SignalPool.Text

inductive Encoding where
  | ascii | utf8
  deriving DecidableEq, Repr

namespace Encoding

def name : Encoding → String
  | ascii => "ascii"
  | utf8 => "utf-8"

def fits : Encoding → Nat → Bool
  | ascii, n => n < 0x80
  | utf8, n => !isHalf n

def reason : Encoding → String
  | ascii => "ordinal not in range(128)"
  | utf8 => "surrogates not allowed"

end Encoding

/-- A run of codes that an encoding has no bytes for: its first code and the places of its two
ends. -/
structure Gap where
  encoding : Encoding
  code : Nat
  first : Nat
  last : Nat
  deriving DecidableEq, Repr

namespace Gap

def message (g : Gap) : String :=
  let encoding := g.encoding.name
  let reason := g.encoding.reason
  let first := g.first
  let last := g.last
  if first = last then
    let shown := String.ofList (escapeCode g.code)
    s!"'{encoding}' codec can't encode character '{shown}' in position {first}: {reason}"
  else s!"'{encoding}' codec can't encode characters in position {first}-{last}: {reason}"

end Gap

def gap? (e : Encoding) (t : Text) : Option Gap :=
  let before := (t.codes.takeWhile e.fits).length
  match t.codes.dropWhile e.fits with
  | [] => none
  | n :: rest => some ⟨e, n, before, before + (rest.takeWhile (fun m => !e.fits m)).length⟩

def encodable (e : Encoding) (t : Text) : Except Gap (List Char) :=
  match gap? e t with
  | some g => .error g
  | none => .ok t.chars

theorem dropWhile_fits_eq_nil_iff (e : Encoding) (codes : List Nat) :
    codes.dropWhile e.fits = [] ↔ ∀ n ∈ codes, e.fits n := by
  induction codes with
  | nil => simp
  | cons n codes ih =>
    rw [List.dropWhile_cons]
    by_cases h : e.fits n
    · simp [h, ih]
    · simp [h]

theorem gap?_eq_none_iff (e : Encoding) (t : Text) :
    gap? e t = none ↔ ∀ n ∈ t.codes, e.fits n := by
  rw [← dropWhile_fits_eq_nil_iff, gap?]
  cases t.codes.dropWhile e.fits with
  | nil => simp
  | cons n rest => simp

theorem gap?_ofString (s : String) : gap? .utf8 (ofString s) = none := by
  rw [gap?_eq_none_iff]
  intro n hn
  obtain ⟨c, -, rfl⟩ := List.mem_map.mp hn
  have h : c.toNat.isValidChar := c.valid
  have hc : c.toNat < 0xd800 ∨ 0xe000 ≤ c.toNat := by
    rcases h with h | h
    · exact Or.inl h
    · exact Or.inr (by omega)
  simp only [Encoding.fits, isHalf, Bool.not_eq_true', Bool.and_eq_false_iff,
    decide_eq_false_iff_not]
  omega

theorem encodable_ofString (s : String) : encodable .utf8 (ofString s) = .ok s.toList := by
  rw [encodable, gap?_ofString, chars_ofString]

example : gap? .utf8 ⟨[0x61, 0xdfff, 0xd800]⟩ = some ⟨.utf8, 0xdfff, 1, 2⟩ := by decide

end SignalPool.Text
