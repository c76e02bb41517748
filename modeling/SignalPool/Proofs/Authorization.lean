import SignalPool.Instruction.Call
import SignalPool.Proofs.Listings

namespace SignalPool

namespace Registry

variable {r : Registry} {market : Key} {markets : List Key} {l : Listing} {f : Refusal}

/-- The listing is of the market, and no later one is. -/
def LastOf (r : Registry) (market : Key) (l : Listing) : Prop :=
  ∃ before after, r.listed = before ++ l :: after ∧ l.address = market ∧
    ∀ k ∈ after, k.address ≠ market

/-- Why a market may not be used: it was never listed, or its last listing retires it. -/
inductive Refuses (r : Registry) (market : Key) : Refusal → Prop
  | unlisted (h : ∀ l ∈ r.listed, l.address ≠ market) : Refuses r market (.unauthorized market)
  | retired {l : Listing} (h : r.LastOf market l) (hretired : l.deprecated = true) :
    Refuses r market (.deprecated market)

/-- The first of some markets that may not be used, and why. -/
def FirstRefusal (r : Registry) (markets : List Key) (f : Refusal) : Prop :=
  ∃ before market after, markets = before ++ market :: after ∧
    (∀ m ∈ before, ¬∃ g, r.Refuses m g) ∧ r.Refuses market f

theorem get?_eq_some_iff : r.get? market = some l ↔ r.LastOf market l := by
  rw [get?_eq_find?, List.find?_eq_some_iff_append]
  constructor
  · rintro ⟨haddress, later, earlier, hsplit, hlater⟩
    refine ⟨earlier.reverse, later.reverse, ?_, of_decide_eq_true haddress, fun k hk => ?_⟩
    · rw [← List.reverse_reverse r.listed, hsplit]
      simp
    · simpa using hlater k (List.mem_reverse.mp hk)
  · rintro ⟨before, after, hsplit, haddress, hafter⟩
    refine ⟨decide_eq_true haddress, after.reverse, before.reverse, by simp [hsplit], ?_⟩
    intro k hk
    simpa using hafter k (List.mem_reverse.mp hk)

theorem check_eq_error_iff : r.check market = .error f ↔ r.Refuses market f := by
  rw [check]
  cases h : r.get? market with
  | none =>
    constructor
    · rintro ⟨⟩
      exact .unlisted (get?_eq_none_iff.mp h)
    · rintro (_ | ⟨hlast, _⟩)
      · rfl
      · cases h.symm.trans (get?_eq_some_iff.mpr hlast)
  | some l =>
    constructor
    · intro hf
      by_cases hl : l.deprecated
      · simp only [hl, if_true, Except.error.injEq] at hf
        subst hf
        exact .retired (get?_eq_some_iff.mp h) hl
      · simp [hl] at hf
    · rintro (hnone | ⟨hlast, hl⟩)
      · cases h.symm.trans (get?_eq_none_iff.mpr hnone)
      · cases h.symm.trans (get?_eq_some_iff.mpr hlast)
        simp [hl]

theorem check_eq_ok_of_not_refused (h : ¬∃ g, r.Refuses market g) : r.check market = .ok () := by
  cases hcheck : r.check market with
  | error f => exact absurd ⟨f, check_eq_error_iff.mp hcheck⟩ h
  | ok u => rfl

theorem validate_cons_of_error (h : r.check market = .error f) (markets : List Key) :
    r.validate (market :: markets) = .error f := by
  rw [validate, h]
  rfl

theorem validate_cons_of_ok (h : r.check market = .ok ()) (markets : List Key) :
    r.validate (market :: markets) = r.validate markets := by
  rw [validate, h]
  rfl

theorem validate_eq_ok_iff :
    r.validate markets = .ok () ↔ ∀ m ∈ markets, ¬∃ f, r.Refuses m f := by
  induction markets with
  | nil => exact iff_of_true rfl nofun
  | cons market markets ih =>
    rw [List.forall_mem_cons, ← ih]
    by_cases hrefused : ∃ f, r.Refuses market f
    · obtain ⟨f, hf⟩ := hrefused
      rw [validate_cons_of_error (check_eq_error_iff.mpr hf)]
      exact iff_of_false nofun fun h => h.1 ⟨f, hf⟩
    · rw [validate_cons_of_ok (check_eq_ok_of_not_refused hrefused)]
      exact (and_iff_right hrefused).symm

theorem validate_eq_error_iff : r.validate markets = .error f ↔ r.FirstRefusal markets f := by
  induction markets with
  | nil => exact iff_of_false nofun fun ⟨before, _, _, h, _⟩ => by simp at h
  | cons market markets ih =>
    by_cases hrefused : ∃ g, r.Refuses market g
    · obtain ⟨g, hg⟩ := hrefused
      rw [validate_cons_of_error (check_eq_error_iff.mpr hg)]
      constructor
      · rintro ⟨⟩
        exact ⟨[], market, markets, rfl, nofun, hg⟩
      · rintro ⟨_ | ⟨_, before⟩, _, after, hsplit, hbefore, hf⟩
        · cases hsplit
          exact (check_eq_error_iff.mpr hg).symm.trans (check_eq_error_iff.mpr hf)
        · cases hsplit
          exact absurd ⟨g, hg⟩ (hbefore market List.mem_cons_self)
    · rw [validate_cons_of_ok (check_eq_ok_of_not_refused hrefused), ih]
      constructor
      · rintro ⟨before, m, after, rfl, hbefore, hf⟩
        exact ⟨market :: before, m, after, rfl, List.forall_mem_cons.mpr ⟨hrefused, hbefore⟩, hf⟩
      · rintro ⟨_ | ⟨_, before⟩, m, after, hsplit, hbefore, hf⟩
        · cases hsplit
          exact absurd ⟨f, hf⟩ hrefused
        · cases hsplit
          exact ⟨before, m, after, rfl, (List.forall_mem_cons.mp hbefore).2, hf⟩

end Registry

namespace Call

variable {program : Key} {seed : Bytes} {terms : FirstDeposit} {a : CreateAccounts} {r : Registry}

theorem create_of_validate_ok (h : r.validate terms.markets = .ok ()) :
    create program seed terms a (some r) = create program seed terms a none := by
  rw [create, create, checkMarkets, checkMarkets, h]

theorem create_of_validate_error {f : Registry.Refusal}
    (h : r.validate terms.markets = .error f) :
    create program seed terms a (some r) = .error (.market f) := by
  rw [create, checkMarkets, h]
  rfl

theorem create_unchecked_ne_market (f : Registry.Refusal) :
    create program seed terms a none ≠ .error (.market f) := by
  have hmake : create program seed terms a none =
      (make program a.uses ⟨seed, .create terms⟩).mapError .encoding := rfl
  rw [hmake]
  cases make program a.uses ⟨seed, .create terms⟩ <;> nofun

theorem create_eq_market_iff {f : Registry.Refusal} :
    create program seed terms a (some r) = .error (.market f) ↔
      r.FirstRefusal terms.markets f := by
  rw [← Registry.validate_eq_error_iff]
  cases h : r.validate terms.markets with
  | error g =>
    rw [create_of_validate_error h]
    simp
  | ok u =>
    rw [create_of_validate_ok h]
    exact iff_of_false (create_unchecked_ne_market f) nofun

theorem exists_create_eq_market_iff :
    (∃ f, create program seed terms a (some r) = .error (.market f)) ↔
      ∃ m ∈ terms.markets, ∃ f, r.Refuses m f := by
  constructor
  · rintro ⟨f, hf⟩
    obtain ⟨before, m, after, hsplit, _, hm⟩ := create_eq_market_iff.mp hf
    exact ⟨m, by simp [hsplit], f, hm⟩
  · rintro ⟨m, hm, f, hf⟩
    cases h : r.validate terms.markets with
    | error g => exact ⟨g, create_of_validate_error h⟩
    | ok u => exact absurd ⟨f, hf⟩ (Registry.validate_eq_ok_iff.mp h m hm)

/-- With a registry a pool is refused for its markets exactly if one of them may not be used. The
first such market is the failure, whatever else is wrong with the call. If there is none, the
registry makes no difference. -/
theorem create_authorized (program : Key) (seed : Bytes) (terms : FirstDeposit)
    (a : CreateAccounts) (r : Registry) :
    ((∃ f, create program seed terms a (some r) = .error (.market f)) ↔
        ∃ m ∈ terms.markets, ∃ f, r.Refuses m f) ∧
      (∀ f, create program seed terms a (some r) = .error (.market f) ↔
        r.FirstRefusal terms.markets f) ∧
      ((∀ m ∈ terms.markets, ¬∃ f, r.Refuses m f) →
        create program seed terms a (some r) = create program seed terms a none) ∧
      ∀ f, create program seed terms a none ≠ .error (.market f) :=
  ⟨exists_create_eq_market_iff, fun _ => create_eq_market_iff,
    fun h => create_of_validate_ok (Registry.validate_eq_ok_iff.mpr h), create_unchecked_ne_market⟩

def openingAccounts : CreateAccounts :=
  ⟨.ofNat 1, .ofNat 2, [.ofNat 4], .ofNat 5, .ofNat 6, [.ofNat 10], .ofNat 11, .ofNat 3⟩

def openingTerms (markets : List Key) : FirstDeposit := ⟨604800, 655, markets, [5]⟩

/-- A market that was listed again may be used. One that is retired is the failure, before a seed
that is too short and before a market that was never listed. -/
theorem create_authorized_relisted :
    let create (seed : Bytes) (markets : List Key) :=
      create (.ofNat 20) seed (openingTerms markets) openingAccounts
    (∀ m ∈ [Key.ofNat 7], ¬∃ f, Registry.relisted.Refuses m f) ∧
      create (List.replicate 32 9) [.ofNat 7] (some Registry.relisted) =
        create (List.replicate 32 9) [.ofNat 7] none ∧
      create [9] [.ofNat 7, .ofNat 8, .ofNat 12] (some Registry.relisted) =
        .error (.market (.deprecated (.ofNat 8))) := by
  intro create
  have hfree : ∀ m ∈ [Key.ofNat 7], ¬∃ f, Registry.relisted.Refuses m f :=
    Registry.validate_eq_ok_iff.mp rfl
  have hretired : Registry.relisted.Refuses (.ofNat 8) (.deprecated (.ofNat 8)) :=
    .retired ⟨[_], [_], rfl, rfl, by decide⟩ rfl
  obtain ⟨_, _, hsame, _⟩ := create_authorized (.ofNat 20) (List.replicate 32 9)
    (openingTerms [.ofNat 7]) openingAccounts Registry.relisted
  obtain ⟨_, hfirst, _⟩ := create_authorized (.ofNat 20) [9]
    (openingTerms [.ofNat 7, .ofNat 8, .ofNat 12]) openingAccounts Registry.relisted
  exact ⟨hfree, hsame hfree, (hfirst _).mpr ⟨[_], _, [_], rfl, hfree, hretired⟩⟩

end Call

end SignalPool
