import Mathlib.Data.List.Induction
import SignalPool.Registry

namespace SignalPool.Registry

theorem get?_concat (ls : List Listing) (l : Listing) (market : Key) :
    get? ⟨ls ++ [l]⟩ market = if l.address = market then some l else get? ⟨ls⟩ market := by
  have hinsert : byMarket ⟨ls ++ [l]⟩ = (byMarket ⟨ls⟩).insert l.address l := by
    simp [byMarket, Table.ofList]
  rw [get?, hinsert, Table.get?_insert]
  rfl

theorem get?_eq_find? (r : Registry) (market : Key) :
    r.get? market = r.listed.reverse.find? fun l => l.address = market := by
  obtain ⟨ls⟩ := r
  induction ls using List.reverseRecOn with
  | nil => rfl
  | append_singleton ls l ih =>
    rw [get?_concat, ih]
    by_cases h : l.address = market <;> simp [h]

theorem findByName_concat (ls : List Listing) (l : Listing) (name : Value) :
    findByName ⟨ls ++ [l]⟩ name = if l.name.same name then some l else findByName ⟨ls⟩ name := by
  cases h : l.name.same name <;> simp [findByName, h]

variable {r : Registry} {market : Key} {name : Value} {l c : Listing}

theorem mem_of_findByName (h : r.findByName name = some l) :
    l ∈ r.listed ∧ l.name.same name = true :=
  ⟨List.mem_reverse.mp (List.mem_of_find?_eq_some h), by simpa using List.find?_some h⟩

theorem get?_eq_none_iff : r.get? market = none ↔ ∀ l ∈ r.listed, l.address ≠ market := by
  simp [get?_eq_find?]

theorem exists_get?_of_mem (h : l ∈ r.listed) : ∃ c, r.get? l.address = some c := by
  cases hc : r.get? l.address with
  | none => exact absurd rfl (get?_eq_none_iff.mp hc l h)
  | some c => exact ⟨c, rfl⟩

/-- Of the last listing under a name and the last one of its market, the latter bears the name only
if the two are one. -/
theorem eq_of_same_name (hl : r.findByName name = some l) (hc : r.get? l.address = some c)
    (hname : c.name.same name) : c = l := by
  obtain ⟨ls⟩ := r
  induction ls using List.reverseRecOn with
  | nil => cases hl
  | append_singleton ls x ih =>
    rw [findByName_concat] at hl
    rw [get?_concat] at hc
    by_cases hx : x.name.same name
    · rw [if_pos hx] at hl
      cases hl
      rw [if_pos rfl] at hc
      exact (Option.some.inj hc).symm
    · rw [if_neg hx] at hl
      have haddress : x.address ≠ l.address := by
        intro h
        rw [if_pos h] at hc
        cases hc
        exact hx hname
      rw [if_neg haddress] at hc
      exact ih hl hc

theorem check_eq_ok_iff :
    r.check market = .ok () ↔ ∃ c, r.get? market = some c ∧ c.deprecated = false := by
  rw [check]
  cases r.get? market with
  | none => simp
  | some c => simp

theorem validate_singleton (r : Registry) (market : Key) :
    r.validate [market] = r.check market := by
  simp only [validate]
  cases r.check market <;> rfl

/-- The market of a listing that is found by name is always known. What is known of it is that
listing exactly if its last listing still bears the name, and it may be used exactly if its last
listing does not retire it. -/
theorem findByName_current_iff (h : r.findByName name = some l) :
    ∃ c, r.get? l.address = some c ∧ (c = l ↔ c.name.same name) ∧
      (r.validate [l.address] = .ok () ↔ c.deprecated = false) := by
  obtain ⟨hmem, hname⟩ := mem_of_findByName h
  obtain ⟨c, hc⟩ := exists_get?_of_mem hmem
  refine ⟨c, hc, ⟨?_, eq_of_same_name h hc⟩, ?_⟩
  · rintro rfl
    exact hname
  · rw [validate_singleton, check_eq_ok_iff, hc]
    simp

def relisted : Registry where
  listed := [⟨.ofNat 7, .text "a", .ofNat 3, true⟩, ⟨.ofNat 8, .text "a", .ofNat 3, true⟩,
    ⟨.ofNat 7, .text "a", .ofNat 3, false⟩]

theorem findByName_current_iff_relisted :
    ∃ l, relisted.findByName (.text "a") = some l ∧ l.deprecated = false ∧
      relisted.get? l.address = some l ∧ relisted.validate [l.address] = .ok () := by
  have hfound : relisted.findByName (.text "a") =
      some ⟨.ofNat 7, .text "a", .ofNat 3, false⟩ := rfl
  obtain ⟨c, hc, hsame, hvalid⟩ := findByName_current_iff hfound
  have hlast : relisted.get? (.ofNat 7) = some ⟨.ofNat 7, .text "a", .ofNat 3, false⟩ := rfl
  cases hlast.symm.trans hc
  exact ⟨_, hfound, rfl, hc, hvalid.mpr rfl⟩

def renamed : Registry where
  listed := [⟨.ofNat 7, .text "a", .ofNat 3, false⟩, ⟨.ofNat 7, .text "b", .ofNat 3, true⟩]

/-- Its old listing is still found, and does not say that it is retired. -/
theorem renamed_found_outdated :
    ∃ l, renamed.findByName (.text "a") = some l ∧ l.deprecated = false ∧
      renamed.get? l.address ≠ some l ∧
      renamed.validate [l.address] = .error (.deprecated l.address) := by
  refine ⟨⟨.ofNat 7, .text "a", .ofNat 3, false⟩, rfl, rfl, ?_, rfl⟩
  have hlast : renamed.get? (.ofNat 7) = some ⟨.ofNat 7, .text "b", .ofNat 3, true⟩ := rfl
  rw [hlast]
  intro h
  cases congrArg (Option.map Listing.deprecated) h

end SignalPool.Registry
