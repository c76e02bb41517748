import SignalPool.Proofs.AccountTable

namespace SignalPool.Transaction

variable (tx tx' : Transaction) (pool : TrackedPool) (program : Key)

/-- An instruction of another program or for another pool, or one that neither places an order nor
settles funds. -/
def Foreign (c : Compiled) : Prop :=
  c.programKey? tx.keys ≠ some program ∨
    (∀ effect : Effect, c.data.head? ≠ some effect.tag.code) ∨
    Instruction.seedOf c.data ≠ pool.seed

/-- Two transactions that are the same but for foreign instructions and what those invoked. -/
structure SameOwn : Prop where
  signature : tx.signature = tx'.signature
  slot : tx.slot = tx'.slot
  keys : tx.keys = tx'.keys
  count : tx.instructions.length = tx'.instructions.length
  own (place : Nat) (c c' : Compiled) (hc : tx.instructions[place]? = some c)
    (hc' : tx'.instructions[place]? = some c') :
    c = c' ∧ tx.innerOf place = tx'.innerOf place ∨
      tx.Foreign pool program c ∧ tx'.Foreign pool program c'

variable {tx tx' pool program} {c : Compiled}

theorem foreign_iff : tx.Foreign pool program c ↔ tx.effectOn? pool program c = none := by
  rw [Option.eq_none_iff_forall_ne_some]
  simp only [ne_eq, effectOn?_eq_some_iff, Foreign]
  by_cases hprogram : c.programKey? tx.keys = some program
  · by_cases hseed : Instruction.seedOf c.data = pool.seed <;> simp [hprogram, hseed]
  · simp [hprogram]

instance : Decidable (tx.Foreign pool program c) := decidable_of_iff _ foreign_iff.symm

theorem eventAt_of_foreign (h : tx.Foreign pool program c) (tokenProgram : Key) (place : Nat) :
    tx.eventAt pool program tokenProgram place c = (none, []) := by
  rw [eventAt, foreign_iff.mp h]

theorem SameOwn.outcomes (h : tx.SameOwn tx' pool program) (tokenProgram : Key) :
    tx.outcomes pool program tokenProgram = tx'.outcomes pool program tokenProgram := by
  refine outcomes_congr h.count fun place c c' hc hc' => ?_
  obtain ⟨rfl, hinner⟩ | ⟨hforeign, hforeign'⟩ := h.own place c c' hc hc'
  · refine eventAt_congr ⟨h.signature, h.slot, ?_, ?_⟩
    · rw [h.keys]
    · rw [h.keys, hinner]
  · rw [eventAt_of_foreign hforeign, eventAt_of_foreign hforeign']

/-- Foreign instructions do not interfere. Whatever stands in their places and whatever they
invoked, transfers to the pool's own accounts too, the events of the pool are the same, and so is
what is reported. -/
theorem events_of_sameOwn (h : tx.SameOwn tx' pool program) (tokenProgram : Key) :
    tx.events pool program tokenProgram = tx'.events pool program tokenProgram ∧
      tx.warnings pool program tokenProgram = tx'.warnings pool program tokenProgram := by
  rw [events, events, warnings, warnings, h.outcomes]
  exact ⟨rfl, rfl⟩

def settlementAmid (before after : Compiled) (inner inner' : Invoked Compiled) : Transaction where
  signature := "a"
  slot := 5
  keys := [.ofNat 19, .ofNat 15, .ofNat 20, .ofNat 2, .ofNat 4, .ofNat 21]
  instructions := [before,
    ⟨2, [3, 4], Tag.settleFunds.code :: Call.oneMarket.seed ++ List.replicate 16 0⟩, after]
  inner := [(0, inner), (1, .only Call.transfer513), (2, inner')]

theorem events_of_sameOwn_settlement :
    let tx := settlementAmid
      ⟨5, [3, 4], Tag.settleFunds.code :: Call.oneMarket.seed ++ List.replicate 16 0⟩
      ⟨2, [3, 4], [Tag.settleFunds.code, 9, 9]⟩ (.only Call.transfer513) (.only Call.transfer513)
    let tx' := settlementAmid ⟨77, [], []⟩
      ⟨2, [3, 4], Tag.collectFees.code :: Call.oneMarket.seed⟩ ⟨[], by decide⟩
      (.only Call.transfer513)
    tx.SameOwn tx' Call.oneMarket (.ofNat 20) ∧
      tx.events Call.oneMarket (.ofNat 20) (.ofNat 19) =
        [.settle ⟨"a", 5, .ofNat 4, .ofNat 2, [⟨.ofNat 18, 513⟩]⟩] ∧
      tx.events Call.oneMarket (.ofNat 20) (.ofNat 19) =
        tx'.events Call.oneMarket (.ofNat 20) (.ofNat 19) := by
  intro tx tx'
  have hsame : tx.SameOwn tx' Call.oneMarket (.ofNat 20) := by
    refine ⟨rfl, rfl, rfl, rfl, fun place c c' hc hc' => ?_⟩
    rcases place with _ | _ | _ | place <;> cases hc <;> cases hc'
    · exact .inr (by decide +kernel)
    · exact .inl ⟨rfl, rfl⟩
    · exact .inr (by decide +kernel)
  exact ⟨hsame, by decide +kernel, (events_of_sameOwn hsame (.ofNat 19)).1⟩

end SignalPool.Transaction
