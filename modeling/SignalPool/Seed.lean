import SignalPool.Fault

namespace SignalPool.Seed

def check (seed : Bytes) : Except FormatFault Bytes :=
  if seed.length = 32 then .ok seed else .error (.seedSize seed.length)

theorem check_eq_ok_iff {seed bs : Bytes} : check seed = .ok bs ↔ seed.length = 32 ∧ bs = seed := by
  unfold check
  split
  · rename_i h
    simp only [Except.ok.injEq, h, true_and]
    exact eq_comm
  · rename_i h
    simp [h]

theorem check_eq_error_iff {seed : Bytes} {f : FormatFault} :
    check seed = .error f ↔ seed.length ≠ 32 ∧ f = .seedSize seed.length := by
  unfold check
  split
  · rename_i h
    simp [h]
  · rename_i h
    simp only [Except.error.injEq, ne_eq, h, not_false_eq_true, true_and]
    exact eq_comm

end SignalPool.Seed
