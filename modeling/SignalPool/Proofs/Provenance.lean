import Mathlib.Data.List.Perm.Basic
import SignalPool.Proofs.Attribution
import SignalPool.Proofs.Canonical
import SignalPool.Proofs.Emission
import SignalPool.Proofs.Restatement

namespace SignalPool

structure Origin where
  transaction : Nat
  instruction : Nat
  deriving DecidableEq

/-- The instructions that an order and its settlement come from. -/
structure Trail where
  placed : Origin
  settled : Option Origin
  deriving DecidableEq

namespace Origin

def Holds (txs : List Transaction) (a : Origin) (tx : Transaction) (c : Compiled) : Prop :=
  txs[a.transaction]? = some tx ∧ tx.instructions[a.instruction]? = some c

end Origin

namespace Grouping

end Grouping

namespace Transaction

variable (tx : Transaction) (txs : List Transaction) (pool : TrackedPool)
  (program tokenProgram : Key)

variable {tx txs pool program tokenProgram} {k : Nat} {a : Origin} {e : PoolEvent}

end Transaction

namespace Trail

/-- No two trails share the instruction of an order, and no two that of a settlement. -/
structure Distinct (trails : List Trail) : Prop where
  placed : (trails.map placed).Nodup
  settled : (trails.filterMap settled).Nodup

variable {ts us : List Trail}

theorem Distinct.sublist (h : Distinct ts) (hs : us.Sublist ts) : Distinct us where
  placed := h.placed.sublist (hs.map Trail.placed)
  settled := h.settled.sublist (hs.filterMap Trail.settled)

end Trail

/-- Each value has a trail, and the trails are distinct. -/
def Traceable {α : Type} (P : Trail → α → Prop) (xs : List α) : Prop :=
  ∃ trails, List.Forall₂ P trails xs ∧ Trail.Distinct trails

namespace Traceable

variable {α β : Type} {P : Trail → α → Prop} {Q : Trail → β → Prop} {xs ys : List α}

theorem take (h : Traceable P xs) (n : Nat) : Traceable P (xs.take n) := by
  obtain ⟨ts, hts, hd⟩ := h
  exact ⟨ts.take n, List.forall₂_take n hts, hd.sublist (List.take_sublist n ts)⟩

theorem filterMap (f : α → Option β) (hf : ∀ t a b, P t a → f a = some b → Q t b)
    (h : Traceable P xs) : Traceable Q (xs.filterMap f) := by
  obtain ⟨ts, hts, hd⟩ := h
  have hsub : List.SublistForall₂ (flip Q) (xs.filterMap f) ts := by
    clear hd
    induction hts with
    | nil => exact .nil
    | @cons t a ts xs ht _ ih =>
      rw [List.filterMap_cons]
      cases ha : f a with
      | none => exact .cons_right ih
      | some b => exact .cons (hf t a b ht ha) ih
  obtain ⟨us, hus, hsublist⟩ := List.sublistForall₂_iff.mp hsub
  exact ⟨us, hus.flip, hd.sublist hsublist⟩

end Traceable

namespace Pairing

variable (sources : List (Origin × PoolEvent))

variable {sources}

end Pairing

namespace Order

end Order

namespace Market

end Market

namespace Node

variable {n : Node} {p : PairedOrder} {o : Order}

end Node

namespace Reconstructor

variable (r : Reconstructor) (pool : TrackedPool) (txs : List Transaction)

structure States (tx : Transaction) (c : Compiled) (terms : OrderTerms) (o : Order) : Prop where
  program : c.programKey? tx.keys = some r.config.poolProgram
  seed : Instruction.seedOf c.data = pool.seed
  decodes : OrderTerms.decode c.data = .ok terms
  openOrders : c.account? tx.keys 3 = some o.openOrders
  signature : o.signature = tx.signature
  slot : o.slot = tx.slot
  side : o.side = terms.side
  orderType : o.orderType = terms.orderType
  clientId : o.clientId = terms.clientId
  assetRatio : o.assetRatio = terms.assetRatio

/-- A settle instruction of the pool is the settlement of an order. -/
structure Settles (tx : Transaction) (c : Compiled) (o : Order) : Prop where
  instruction : tx.Settles pool r.config.poolProgram c
  openOrders : c.account? tx.keys 1 = some o.openOrders
  signature : o.settleSignature = some tx.signature

variable {r pool txs}

variable (r pool txs)

end Reconstructor

end SignalPool
