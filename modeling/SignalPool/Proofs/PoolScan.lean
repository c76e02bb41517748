import Mathlib.Data.List.Basic
import SignalPool.Client
import SignalPool.Proofs.PoolHeader

namespace SignalPool

namespace Pool

/-- The account holds a pool, one of the provider where one is given. -/
def HeldIn (provider : Option Key) (data : Bytes) : Prop :=
  117 ≤ data.length ∧ data[96]? ≠ some 0x7f ∧ data[96]? ≠ some 0xff ∧
    ∀ p ∈ provider, (data.drop 64).take 32 = p.bytes

instance (provider : Option Key) : DecidablePred (HeldIn provider) := fun data =>
  inferInstanceAs (Decidable (117 ≤ data.length ∧ data[96]? ≠ some 0x7f ∧ data[96]? ≠ some 0xff ∧
    ∀ p ∈ provider, (data.drop 64).take 32 = p.bytes))

variable {data : Bytes} {h : Header}

theorem heldIn_iff_of_decode (hd : Header.decode data = .ok h) (provider : Option Key) :
    HeldIn provider data ↔ provider.all (· = h.signalProvider) := by
  obtain ⟨hsize, hlow, hhigh⟩ := Header.exists_decode_iff.mp ⟨h, hd⟩
  have hsize' : 117 ≤ data.length := hsize
  cases provider with
  | none => simp [HeldIn, hsize', hlow, hhigh]
  | some p =>
    have hp : (data.drop 64).take 32 = p.bytes ↔ p = h.signalProvider := by
      rw [← Header.signalProvider_of_decode hd, Key.bytes_inj]
      exact eq_comm
    simp [HeldIn, hsize', hlow, hhigh, hp]

end Pool

namespace Client

variable (provider : Option Key) (address : Key) (data : Bytes)

/-- What an account adds to a scan: nothing if it is short, has no status or is another
provider's. -/
theorem scanned_fst : (scanned provider address data).1 =
    if Pool.HeldIn provider data then some ((data.drop 32).take 32) else none := by
  rw [scanned]
  split
  · rename_i hshort
    have hheld : ¬Pool.HeldIn provider data := fun h => Nat.not_le.mpr hshort h.1
    rw [if_neg hheld]
  · cases hd : Pool.Header.decode data with
    | error f =>
      have hheld : ¬Pool.HeldIn provider data := by
        rintro ⟨hsize, hlow, hhigh, _⟩
        obtain ⟨h, hh⟩ := Pool.Header.exists_decode_iff.mpr ⟨hsize, hlow, hhigh⟩
        cases hd.symm.trans hh
      rw [if_neg hheld]
    | ok h =>
      simp only [Pool.heldIn_iff_of_decode hd, ← Pool.Header.seed_of_decode hd]
      split <;> rfl

variable (c : Client)

theorem value_poolSeeds : (c.poolSeeds provider).value =
    ((c.node.programAccounts c.config.poolProgram).filter
      (fun e => Pool.HeldIn provider e.2)).map fun e => (e.2.drop 32).take 32 := by
  simp only [poolSeeds, Trace.value_bind, Trace.value_pure, Trace.ask, List.filterMap_map,
    Function.comp_def, scanned_fst]
  rw [← List.filterMap_eq_map, List.filterMap_filter]
  simp

theorem poolSeeds_sublist (p : Key) :
    (c.poolSeeds (some p)).value.Sublist (c.poolSeeds none).value := by
  rw [value_poolSeeds, value_poolSeeds]
  refine (List.monotone_filter_right _ fun e he => ?_).map _
  obtain ⟨hsize, hlow, hhigh, _⟩ := of_decide_eq_true he
  exact decide_eq_true ⟨hsize, hlow, hhigh, nofun⟩

def onAccounts (accounts : List (Key × Bytes)) : Client :=
  { c with node := { c.node with programAccounts := fun _ => accounts } }

theorem poolSeeds_append (before after : List (Key × Bytes)) :
    ((c.onAccounts (before ++ after)).poolSeeds provider).value =
      ((c.onAccounts before).poolSeeds provider).value ++
        ((c.onAccounts after).poolSeeds provider).value := by
  simp only [value_poolSeeds, onAccounts, List.filter_append, List.map_append]

/-- A scan cannot fail: it gives the seeds of the accounts that hold a pool, in the order of the
accounts, and passes over all others. With a provider it leaves some of the seeds out. What one
account holds makes no difference to what the others add. -/
theorem poolSeeds_scan :
    (c.poolSeeds provider).value =
        ((c.node.programAccounts c.config.poolProgram).filter
          (fun e => Pool.HeldIn provider e.2)).map (fun e => (e.2.drop 32).take 32) ∧
      (∀ p, (c.poolSeeds (some p)).value.Sublist (c.poolSeeds none).value) ∧
      ∀ before e after,
        let seeds accounts := ((c.onAccounts accounts).poolSeeds provider).value
        seeds (before ++ after) = seeds before ++ seeds after ∧
          seeds (before ++ e :: after) = seeds before ++ seeds [e] ++ seeds after := by
  refine ⟨c.value_poolSeeds provider, c.poolSeeds_sublist, fun before e after => ?_⟩
  refine ⟨c.poolSeeds_append provider before after, ?_⟩
  rw [List.append_cons]
  simp only [poolSeeds_append]

end Client

end SignalPool
