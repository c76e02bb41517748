import SignalPool.Proofs.Grammar
import SignalPool.Proofs.Recognition

namespace SignalPool

namespace Compiled

/-- The data of an instruction decode under the tag that they start with. -/
def Decodes (c : Compiled) : Prop :=
  ∃ code i, c.data.head? = some code ∧ Instruction.decode code c.data = .ok i

variable {c : Compiled}

theorem decodes_iff {t : Tag} (h : c.data.head? = some t.code) :
    c.Decodes ↔ t.Grammar c.data := by
  rw [← Instruction.exists_decode_iff]
  constructor
  · rintro ⟨code, i, hcode, hi⟩
    cases h.symm.trans hcode
    exact ⟨i, hi⟩
  · rintro ⟨i, hi⟩
    exact ⟨t.code, i, h, hi⟩

theorem decodes_settleFunds_iff (h : c.data.head? = some Tag.settleFunds.code) :
    c.Decodes ↔ 49 ≤ c.data.length := by
  rw [decodes_iff h]
  exact ⟨fun hg => hg.full, fun hfull => ⟨h, hfull, trivial⟩⟩

end Compiled

namespace Transaction

variable {tx : Transaction} {pool : TrackedPool} {program tokenProgram : Key}

theorem exists_emits_of_mem {e : PoolEvent} (h : e ∈ tx.events pool program tokenProgram) :
    ∃ place c, tx.instructions[place]? = some c ∧ tx.Emits pool program tokenProgram place e := by
  obtain ⟨outcome, hmem, hevent⟩ := List.mem_filterMap.mp (List.mem_reverse.mp h)
  obtain ⟨⟨c, place⟩, hc, rfl⟩ := List.mem_map.mp hmem
  have hplace : tx.instructions[place]? = some c := List.mem_zipIdx_iff_getElem?.mp hc
  exact ⟨place, c, hplace, emits_of_eventAt hplace (eventAt_of_fst_eq_some hevent)⟩

theorem Emits.eventAt {place : Nat} {c : Compiled} {e : PoolEvent}
    (h : tx.Emits pool program tokenProgram place e) (hc : tx.instructions[place]? = some c) :
    tx.eventAt pool program tokenProgram place c = (some e, []) := by
  have houtcome := h.outcome
  rw [getElem?_outcomes, hc] at houtcome
  exact Option.some.inj houtcome

theorem Emits.decodes_iff {place : Nat} {c : Compiled} {e : PoolEvent}
    (h : tx.Emits pool program tokenProgram place e) (hc : tx.instructions[place]? = some c) :
    c.Decodes ↔ (e.isSettle = true → 49 ≤ c.data.length) := by
  have hevent : (tx.eventAt pool program tokenProgram place c).1 = some e := by
    rw [h.eventAt hc]
  cases e with
  | order o =>
    obtain ⟨heffect, ho⟩ := eventAt_order hevent
    obtain ⟨_, _, hhead⟩ := effectOn?_eq_some_iff.mp heffect
    obtain ⟨terms, _, _, _, hterms, _⟩ := OrderEvent.ofInstruction_eq_some_iff.mp ho
    have hdecodes : c.Decodes := ⟨_, _, hhead, Instruction.decode_of_orderTerms hhead hterms⟩
    exact iff_of_true hdecodes nofun
  | settle s =>
    obtain ⟨_, _, hhead⟩ := effectOn?_eq_some_iff.mp (eventAt_settle hevent).1
    rw [Compiled.decodes_settleFunds_iff hhead]
    exact ⟨fun hfull _ => hfull, fun h => h rfl⟩

/-- Every event comes from an instruction. One that places an order decodes, and one that settles
funds does exactly if its data are not cut short. -/
theorem events_decode_iff (tx : Transaction) (pool : TrackedPool) (program tokenProgram : Key) :
    (∀ e ∈ tx.events pool program tokenProgram, ∃ place c, tx.instructions[place]? = some c ∧
        tx.Emits pool program tokenProgram place e) ∧
      ∀ place c e, tx.instructions[place]? = some c → tx.Emits pool program tokenProgram place e →
        (c.Decodes ↔ (e.isSettle = true → 49 ≤ c.data.length)) :=
  ⟨fun _ => exists_emits_of_mem, fun _ _ _ hc h => h.decodes_iff hc⟩

def cutSettlement : Transaction where
  signature := "a"
  slot := 5
  keys := [.ofNat 19, .ofNat 15, .ofNat 20, .ofNat 2, .ofNat 4]
  instructions := [⟨2, [3, 4], Tag.settleFunds.code :: Call.oneMarket.seed⟩]
  inner := [(0, .only Call.transfer513)]

theorem cutSettlement_emits :
    (∃ s, cutSettlement.events Call.oneMarket (.ofNat 20) (.ofNat 19) = [.settle s]) ∧
      ∀ c ∈ cutSettlement.instructions, ¬c.Decodes := by
  refine ⟨⟨⟨"a", 5, .ofNat 4, .ofNat 2, [⟨.ofNat 18, 513⟩]⟩, by decide +kernel⟩, ?_⟩
  intro c hc
  cases List.mem_singleton.mp hc
  rw [Compiled.decodes_settleFunds_iff rfl]
  decide

end Transaction

end SignalPool
