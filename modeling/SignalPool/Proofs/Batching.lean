import SignalPool.Proofs.Emission
import SignalPool.Proofs.Tables

namespace SignalPool.Transaction

def take (tx : Transaction) (n : Nat) : Transaction :=
  { tx with
    instructions := tx.instructions.take n
    inner := tx.inner.filter fun e => decide (e.1 < n) }

def drop (tx : Transaction) (n : Nat) : Transaction :=
  { tx with
    instructions := tx.instructions.drop n
    inner := (tx.inner.filter fun e => decide ((n : Int) ≤ e.1)).map fun e => (e.1 - n, e.2) }

/-- Consecutive transactions, newest first, that hold the instructions of one: as many at a time as
the list says, and the last of them what is left. -/
def pieces (tx : Transaction) : List Nat → List Transaction
  | [] => [tx]
  | n :: sizes => pieces (tx.drop n) sizes ++ [tx.take n]

variable (tx : Transaction) (pool : TrackedPool) (program tokenProgram : Key)

theorem innerOf_take {n i : Nat} (hi : i < n) : (tx.take n).innerOf i = tx.innerOf i := by
  have hlt : (i : Int) < n := Int.ofNat_lt.mpr hi
  rw [innerOf, innerOf, take, Table.get?_filter_key (fun j => decide (j < (n : Int))),
    decide_eq_true hlt, if_pos rfl]

theorem innerOf_drop (n i : Nat) : (tx.drop n).innerOf i = tx.innerOf ((n + i : Nat) : Int) := by
  have hi : (i : Int) = ((n + i : Nat) : Int) - n := by omega
  have hle : (n : Int) ≤ ((n + i : Nat) : Int) := by omega
  rw [innerOf, innerOf, drop, hi, Table.get?_mapKeys (f := fun j => j - (n : Int)) (by omega),
    Table.get?_filter_key (fun j => decide ((n : Int) ≤ j)), decide_eq_true hle, if_pos rfl]

variable {tx pool program tokenProgram} in
theorem fst_eventAt_of_innerOf {instructions : List Compiled} {inner : Table Int (Invoked Compiled)}
    {place place' : Nat} (c : Compiled)
    (h : ({ tx with instructions, inner } : Transaction).innerOf place' = tx.innerOf place) :
    (({ tx with instructions, inner } : Transaction).eventAt pool program tokenProgram place' c).1 =
      (tx.eventAt pool program tokenProgram place c).1 := by
  apply Option.ext
  intro e
  rw [fst_eventAt_eq_some_iff, fst_eventAt_eq_some_iff, h]
  exact Iff.rfl

theorem take_outcomes (n : Nat) :
    ((tx.outcomes pool program tokenProgram).map Prod.fst).take n =
      ((tx.take n).outcomes pool program tokenProgram).map Prod.fst := by
  apply List.ext_getElem?
  intro i
  rw [List.getElem?_take, List.getElem?_map, List.getElem?_map, getElem?_outcomes,
    getElem?_outcomes]
  by_cases hi : i < n
  · have hc : (tx.take n).instructions[i]? = tx.instructions[i]? := List.getElem?_take_of_lt hi
    rw [if_pos hi, hc]
    cases tx.instructions[i]? with
    | none => rfl
    | some c => exact congrArg some (fst_eventAt_of_innerOf c (tx.innerOf_take hi)).symm
  · have hc : (tx.take n).instructions[i]? = none :=
      List.getElem?_take_eq_none (Nat.le_of_not_lt hi)
    rw [if_neg hi, hc]
    rfl

theorem drop_outcomes (n : Nat) :
    ((tx.outcomes pool program tokenProgram).map Prod.fst).drop n =
      ((tx.drop n).outcomes pool program tokenProgram).map Prod.fst := by
  apply List.ext_getElem?
  intro i
  have hc : (tx.drop n).instructions[i]? = tx.instructions[n + i]? := List.getElem?_drop
  rw [List.getElem?_drop, List.getElem?_map, List.getElem?_map, getElem?_outcomes,
    getElem?_outcomes, hc]
  cases tx.instructions[n + i]? with
  | none => rfl
  | some c => exact congrArg some (fst_eventAt_of_innerOf c (tx.innerOf_drop n i)).symm

theorem events_eq_reverse :
    tx.events pool program tokenProgram =
      (((tx.outcomes pool program tokenProgram).map Prod.fst).filterMap id).reverse := by
  rw [events, List.filterMap_map]
  rfl

theorem events_drop_take (n : Nat) :
    tx.events pool program tokenProgram =
      (tx.drop n).events pool program tokenProgram ++
        (tx.take n).events pool program tokenProgram := by
  rw [events_eq_reverse, events_eq_reverse, events_eq_reverse, ← take_outcomes, ← drop_outcomes,
    ← List.reverse_append, ← List.filterMap_append, List.take_append_drop]

variable {tx} in
theorem events_around {place : Nat} {c : Compiled} (hc : tx.instructions[place]? = some c) :
    tx.events pool program tokenProgram =
      (tx.drop (place + 1)).events pool program tokenProgram ++
        ((tx.eventAt pool program tokenProgram place c).1.toList ++
          (tx.take place).events pool program tokenProgram) := by
  have hown : ((tx.outcomes pool program tokenProgram).map Prod.fst)[place]? =
      some (tx.eventAt pool program tokenProgram place c).1 := by
    rw [List.getElem?_map, getElem?_outcomes, hc]
    rfl
  obtain ⟨hlt, hget⟩ := List.getElem?_eq_some_iff.mp hown
  have hsplit : (tx.outcomes pool program tokenProgram).map Prod.fst =
      ((tx.take place).outcomes pool program tokenProgram).map Prod.fst ++
        (tx.eventAt pool program tokenProgram place c).1 ::
          ((tx.drop (place + 1)).outcomes pool program tokenProgram).map Prod.fst := by
    rw [← take_outcomes, ← drop_outcomes, ← hget, List.getElem_cons_drop, List.take_append_drop]
  rw [events_eq_reverse, events_eq_reverse, events_eq_reverse, hsplit, List.filterMap_append,
    List.reverse_append]
  cases (tx.eventAt pool program tokenProgram place c).1 <;> simp

theorem flatMap_events_pieces (sizes : List Nat) :
    (tx.pieces sizes).flatMap (·.events pool program tokenProgram) =
      tx.events pool program tokenProgram := by
  induction sizes generalizing tx with
  | nil => simp [pieces]
  | cons n sizes ih =>
    rw [pieces, List.flatMap_append, ih, List.flatMap_singleton]
    exact (tx.events_drop_take pool program tokenProgram n).symm

/-- Where a transaction is cut in two, the events of its later instructions come first, then those
of the earlier ones. So a history in which one transaction holds several instructions shows the same
events as one in which consecutive transactions hold them, however many each. -/
theorem events_batched :
    (∀ n, tx.events pool program tokenProgram =
      (tx.drop n).events pool program tokenProgram ++
        (tx.take n).events pool program tokenProgram) ∧
    ∀ (sizes : List Nat) (newer older : List Transaction),
      (newer ++ tx :: older).flatMap (·.events pool program tokenProgram) =
        (newer ++ tx.pieces sizes ++ older).flatMap (·.events pool program tokenProgram) := by
  refine ⟨tx.events_drop_take pool program tokenProgram, fun sizes newer older => ?_⟩
  rw [List.flatMap_append, List.flatMap_cons, List.flatMap_append, List.flatMap_append,
    flatMap_events_pieces, List.append_assoc]

end SignalPool.Transaction
