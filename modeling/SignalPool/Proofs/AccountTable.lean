import SignalPool.Fetched
import SignalPool.Proofs.Recognition
import SignalPool.Proofs.Tables

namespace SignalPool

/-- What an instruction says once its places are looked up in an account table; a place past the
end of the table leads to no key. -/
structure Resolved (δ : Type) where
  program : Option Key
  accounts : List (Option Key)
  data : δ
  deriving DecidableEq

namespace View

variable {α β γ : Type}

theorem map_of_map_eq {view view' : α → β} {f f' : α → γ}
    (hf : ∀ a a', view a = view' a' → f a = f' a') {l l' : List α}
    (h : l.map view = l'.map view') : l.map f = l'.map f' := by
  induction l generalizing l' with
  | nil =>
    obtain rfl : l' = [] := List.map_eq_nil_iff.mp h.symm
    rfl
  | cons a l ih =>
    obtain ⟨a', l', rfl, ha, hl⟩ := List.map_eq_cons_iff.mp h.symm
    rw [List.map_cons, List.map_cons, hf a a' ha.symm, ih hl.symm]

theorem map_mapM {ε δ : Type} (f : α → Except ε γ) (w : γ → δ) (l : List α) :
    (l.mapM f).map (List.map w) = (l.map fun a => (f a).map w).mapM id := by
  induction l with
  | nil => rfl
  | cons a l ih =>
    rw [List.map_cons, List.mapM_cons, List.mapM_cons, ← ih]
    cases f a with
    | error e => rfl
    | ok b => cases l.mapM f <;> rfl

end View

namespace Compiled

def resolved (c : Compiled) (keys : List Key) : Resolved Bytes where
  program := c.programKey? keys
  accounts := c.accounts.map (keys[·]?)
  data := c.data

variable {c c' : Compiled} {keys keys' : List Key}

theorem account?_eq (c : Compiled) (keys : List Key) (position : Nat) :
    c.account? keys position = (c.resolved keys).accounts[position]?.join := by
  rw [account?, resolved, List.getElem?_map]
  cases c.accounts[position]? <;> rfl

theorem programKey?_congr (h : c.resolved keys = c'.resolved keys') :
    c.programKey? keys = c'.programKey? keys' := congrArg Resolved.program h

theorem data_congr (h : c.resolved keys = c'.resolved keys') : c.data = c'.data :=
  congrArg Resolved.data h

theorem account?_congr (h : c.resolved keys = c'.resolved keys') (position : Nat) :
    c.account? keys position = c'.account? keys' position := by
  rw [account?_eq, account?_eq, h]

theorem account_congr (h : c.resolved keys = c'.resolved keys') (position : Nat) :
    c.account keys position = c'.account keys' position := by
  rw [account, account, account?_congr h]

theorem transfer?_congr (h : c.resolved keys = c'.resolved keys') (tokenProgram : Key) :
    c.transfer? keys tokenProgram = c'.transfer? keys' tokenProgram := by
  rw [transfer?, transfer?, programKey?_congr h, data_congr h, account?_congr h]

end Compiled

def Invoked.map {α β : Type} (f : α → β) (is : Invoked α) : Invoked β :=
  ⟨is.toList.map f, Nat.lt_of_le_of_lt (Nat.le_of_eq (List.length_map f)) is.short⟩

def Invoked.resolved (cs : Invoked Compiled) (keys : List Key) : List (Resolved Bytes) :=
  cs.toList.map (·.resolved keys)

namespace Transaction

theorem resolved_innerOf (tx : Transaction) (keys : List Key) (place : Int) :
    (tx.innerOf place).map (·.resolved keys) =
      ((Table.mapValues (·.resolved keys) tx.inner).get? place).getD [] := by
  rw [Table.get?_mapValues, innerOf]
  cases tx.inner.get? place <;> rfl

/-- Two transactions that differ only in their account tables and in the places that lead there. -/
structure Relaid (tx tx' : Transaction) : Prop where
  signature : tx.signature = tx'.signature
  slot : tx.slot = tx'.slot
  instructions : tx.instructions.map (·.resolved tx.keys) =
    tx'.instructions.map (·.resolved tx'.keys)
  inner (place : Nat) : (tx.innerOf place).map (·.resolved tx.keys) =
    (tx'.innerOf place).map (·.resolved tx'.keys)

variable (tx tx' : Transaction)

structure SameAt (place : Nat) (c c' : Compiled) : Prop where
  signature : tx.signature = tx'.signature
  slot : tx.slot = tx'.slot
  call : c.resolved tx.keys = c'.resolved tx'.keys
  inner : (tx.innerOf place).map (·.resolved tx.keys) =
    (tx'.innerOf place).map (·.resolved tx'.keys)

end Transaction

section SameAt

variable {tx tx' : Transaction} {place : Nat} {c c' : Compiled} {pool : TrackedPool}
  {program tokenProgram : Key}

theorem OrderEvent.marketOf_congr (h : tx.SameAt tx' place c c') (index : Int) :
    marketOf pool tx.keys c index = marketOf pool tx'.keys c' index := by
  rw [marketOf, marketOf, Compiled.account_congr h.call]

theorem OrderEvent.ofInstruction_congr (h : tx.SameAt tx' place c c') :
    ofInstruction tx c (tx.innerOf place) pool tokenProgram =
      ofInstruction tx' c' (tx'.innerOf place) pool tokenProgram := by
  have htransfers : (tx.innerOf place).map (·.transfer? tx.keys tokenProgram) =
      (tx'.innerOf place).map (·.transfer? tx'.keys tokenProgram) :=
    View.map_of_map_eq (fun _ _ hx => Compiled.transfer?_congr hx tokenProgram) h.inner
  have hpaid : (tx.innerOf place).findSome? (·.transfer? tx.keys tokenProgram) =
      (tx'.innerOf place).findSome? (·.transfer? tx'.keys tokenProgram) := by
    simpa only [List.findSome?_map, Function.id_comp] using congrArg (List.findSome? id) htransfers
  simp only [ofInstruction, Compiled.data_congr h.call, Compiled.account_congr h.call,
    marketOf_congr h, hpaid, h.signature, h.slot]

theorem SettleEvent.proceeds?_congr {x x' : Compiled}
    (h : x.resolved tx.keys = x'.resolved tx'.keys) :
    proceeds? pool tx.keys tokenProgram x = proceeds? pool tx'.keys tokenProgram x' := by
  rw [proceeds?, proceeds?, Compiled.transfer?_congr h]

theorem SettleEvent.ofInstruction_congr (h : tx.SameAt tx' place c c') :
    ofInstruction tx c (tx.innerOf place) pool tokenProgram =
      ofInstruction tx' c' (tx'.innerOf place) pool tokenProgram := by
  have hviews : (tx.innerOf place).map (proceeds? pool tx.keys tokenProgram) =
      (tx'.innerOf place).map (proceeds? pool tx'.keys tokenProgram) :=
    View.map_of_map_eq (fun _ _ => proceeds?_congr) h.inner
  have hproceeds : (tx.innerOf place).filterMap (proceeds? pool tx.keys tokenProgram) =
      (tx'.innerOf place).filterMap (proceeds? pool tx'.keys tokenProgram) := by
    simpa only [List.filterMap_map, Function.id_comp] using congrArg (List.filterMap id) hviews
  simp only [ofInstruction, Compiled.account_congr h.call, hproceeds, h.signature, h.slot]

variable (pool tokenProgram) in
theorem PoolEvent.ofInstruction_congr (h : tx.SameAt tx' place c c') (effect : Effect) :
    ofInstruction effect tx c (tx.innerOf place) pool tokenProgram =
      ofInstruction effect tx' c' (tx'.innerOf place) pool tokenProgram := by
  cases effect with
  | order => rw [ofInstruction, ofInstruction, OrderEvent.ofInstruction_congr h]
  | settle => rw [ofInstruction, ofInstruction, SettleEvent.ofInstruction_congr h]

theorem PoolEvent.warningsOf_congr (h : tx.SameAt tx' place c c') (effect : Effect)
    (found : Except FormatFault (Option PoolEvent)) :
    warningsOf effect tx c found = warningsOf effect tx' c' found := by
  rcases found with f | (_ | e)
  · rfl
  · rw [warningsOf, warningsOf, Compiled.account?_congr h.call, h.signature]
  · rfl

namespace Transaction

theorem effectOn?_congr (h : tx.SameAt tx' place c c') :
    tx.effectOn? pool program c = tx'.effectOn? pool program c' := by
  rw [effectOn?, effectOn?, Compiled.programKey?_congr h.call, Compiled.data_congr h.call]

theorem eventAt_congr (h : tx.SameAt tx' place c c') :
    tx.eventAt pool program tokenProgram place c =
      tx'.eventAt pool program tokenProgram place c' := by
  rw [eventAt, eventAt, effectOn?_congr h]
  cases tx'.effectOn? pool program c' with
  | none => rfl
  | some effect =>
    have hfound := PoolEvent.ofInstruction_congr pool tokenProgram h effect
    have hinner := h.inner
    cases hi : tx.innerOf place <;> cases hi' : tx'.innerOf place <;> rw [hi, hi'] at hinner
    · simp only [h.signature]
    · cases hinner
    · cases hinner
    · rw [hi, hi'] at hfound
      simp only [hfound, PoolEvent.warningsOf_congr h, h.signature]

theorem Relaid.sameAt (h : tx.Relaid tx') (hc : tx.instructions[place]? = some c)
    (hc' : tx'.instructions[place]? = some c') : tx.SameAt tx' place c c' where
  signature := h.signature
  slot := h.slot
  call := by
    have hat := congrArg (·[place]?) h.instructions
    simpa only [List.getElem?_map, hc, hc', Option.map_some, Option.some.injEq] using hat
  inner := h.inner place

theorem Relaid.outcomes (h : tx.Relaid tx') :
    tx.outcomes pool program tokenProgram = tx'.outcomes pool program tokenProgram := by
  have hcount : tx.instructions.length = tx'.instructions.length := by
    simpa only [List.length_map] using congrArg List.length h.instructions
  exact outcomes_congr hcount fun _ _ _ hc hc' => eventAt_congr (h.sameAt hc hc')

end Transaction

end SameAt

namespace InnerInstruction

def resolved (i : InnerInstruction) (keys : List Key) : Resolved InnerData where
  program := keys[i.program]?
  accounts := i.accounts.map (keys[·]?)
  data := i.data

variable {keys keys' : List Key}

theorem map_compileAll (is : List InnerInstruction) :
    (compileAll is).map Subtype.val = is.mapM compile := by
  induction is with
  | nil => rfl
  | cons i is ih =>
    rw [compileAll, List.mapM_cons, ← ih]
    cases i.compile with
    | error f => rfl
    | ok c => cases compileAll is <;> rfl

theorem compile_congr {i i' : InnerInstruction} (h : i.resolved keys = i'.resolved keys') :
    i.compile.map (·.resolved keys) = i'.compile.map (·.resolved keys') := by
  obtain ⟨hprogram, haccounts, hdata⟩ := Resolved.mk.inj h
  rw [compile, compile, hdata]
  cases i'.data.decode with
  | error f => rfl
  | ok data =>
    have hcompiled : (⟨keys[i.program]?, i.accounts.map (keys[·]?), data⟩ : Resolved Bytes) =
        ⟨keys'[i'.program]?, i'.accounts.map (keys'[·]?), data⟩ := by rw [hprogram, haccounts]
    exact congrArg Except.ok hcompiled

end InnerInstruction

namespace Invoked

def resolvedAnswer (is : Invoked InnerInstruction) (keys : List Key) : List (Resolved InnerData) :=
  is.toList.map (·.resolved keys)

variable {keys keys' : List Key}

theorem map_compile (is : Invoked InnerInstruction) (keys : List Key) :
    is.compile.map (·.resolved keys) =
      (is.toList.mapM InnerInstruction.compile).map (List.map (·.resolved keys)) := by
  rw [compile, ← InnerInstruction.map_compileAll]
  cases InnerInstruction.compileAll is.toList <;> rfl

theorem compile_congr {is is' : Invoked InnerInstruction}
    (h : is.resolvedAnswer keys = is'.resolvedAnswer keys') :
    is.compile.map (·.resolved keys) = is'.compile.map (·.resolved keys') := by
  rw [map_compile, map_compile, View.map_mapM, View.map_mapM,
    View.map_of_map_eq (fun _ _ => InnerInstruction.compile_congr) h]

end Invoked

namespace FetchedMeta

variable {keys keys' : List Key}

theorem compileInner_eq_mapM (entries : List (Int × Invoked InnerInstruction)) :
    compileInner entries = entries.mapM fun e => e.2.compile.map (Prod.mk e.1) := by
  induction entries with
  | nil => rfl
  | cons e entries ih =>
    obtain ⟨place, is⟩ := e
    rw [compileInner, List.mapM_cons, ih]
    cases is.compile <;> rfl

theorem compileInner_congr {entries entries' : List (Int × Invoked InnerInstruction)}
    (h : Table.mapValues (·.resolvedAnswer keys) entries =
      Table.mapValues (·.resolvedAnswer keys') entries') :
    (compileInner entries).map (Table.mapValues (·.resolved keys)) =
      (compileInner entries').map (Table.mapValues (·.resolved keys')) := by
  have hswap (keys : List Key) (place : Int) (x : Except DataFault (Invoked Compiled)) :
      (x.map (Prod.mk place)).map (fun e => (e.1, e.2.resolved keys)) =
        (x.map (·.resolved keys)).map (Prod.mk place) := by
    cases x <;> rfl
  have hentry (e e' : Int × Invoked InnerInstruction)
      (he : (e.1, e.2.resolvedAnswer keys) = (e'.1, e'.2.resolvedAnswer keys')) :
      (e.2.compile.map (Prod.mk e.1)).map (fun c => (c.1, c.2.resolved keys)) =
        (e'.2.compile.map (Prod.mk e'.1)).map (fun c => (c.1, c.2.resolved keys')) := by
    obtain ⟨hplace, his⟩ := Prod.mk.inj he
    rw [hswap, hswap, hplace, Invoked.compile_congr his]
  have hall := congrArg (List.mapM id) (View.map_of_map_eq hentry h)
  rw [← View.map_mapM, ← View.map_mapM] at hall
  rw [compileInner_eq_mapM, compileInner_eq_mapM]
  exact hall

end FetchedMeta

namespace Fetched

def invoked (t : Fetched) : List (Int × Invoked InnerInstruction) :=
  (t.outcome.map FetchedMeta.inner).getD []

/-- Two answers of the node that differ only in their account tables, in how many of the keys there
were loaded, and in the places that lead to them. -/
structure Relaid (t t' : Fetched) : Prop where
  slot : t.slot = t'.slot
  instructions : t.instructions.map (·.resolved t.allKeys) =
    t'.instructions.map (·.resolved t'.allKeys)
  inner : Table.mapValues (·.resolvedAnswer t.allKeys) t.invoked =
    Table.mapValues (·.resolvedAnswer t'.allKeys) t'.invoked

variable {t t' : Fetched}

/-- Either both answers are refused, with one fault, or their transactions differ only in their
account tables. -/
theorem Relaid.toTransaction (h : t.Relaid t') (signature : Text) :
    (∃ f, t.toTransaction signature = .error f ∧ t'.toTransaction signature = .error f) ∨
      ∃ tx tx', t.toTransaction signature = .ok tx ∧ t'.toTransaction signature = .ok tx' ∧
        tx.Relaid tx' := by
  have hinner := FetchedMeta.compileInner_congr h.inner
  have hfound (t : Fetched) : t.toTransaction signature =
      (FetchedMeta.compileInner t.invoked).map fun inner =>
        { signature, slot := t.slot, keys := t.allKeys, instructions := t.instructions,
          inner := Table.ofList inner } := by
    rw [Fetched.toTransaction, invoked]
    cases FetchedMeta.compileInner ((t.outcome.map FetchedMeta.inner).getD []) <;> rfl
  rw [hfound, hfound]
  cases hc : FetchedMeta.compileInner t.invoked <;>
    cases hc' : FetchedMeta.compileInner t'.invoked <;> rw [hc, hc'] at hinner
  · cases hinner
    exact .inl ⟨_, rfl, rfl⟩
  · cases hinner
  · cases hinner
  · refine .inr ⟨_, _, rfl, rfl, rfl, h.slot, h.instructions, fun place => ?_⟩
    rw [Transaction.resolved_innerOf, Transaction.resolved_innerOf, Table.mapValues_ofList,
      Table.mapValues_ofList, Except.ok.inj hinner]

end Fetched

namespace Transaction

/-- The events of a transaction, and what is reported of it, do not depend on the layout of its
account table: only the keys to which the places lead matter. So it makes no difference either
which keys an answer of the node names itself and which it has loaded. -/
theorem events_relaid (pool : TrackedPool) (program tokenProgram : Key) :
    (∀ tx tx' : Transaction, tx.Relaid tx' →
      tx.events pool program tokenProgram = tx'.events pool program tokenProgram ∧
        tx.warnings pool program tokenProgram = tx'.warnings pool program tokenProgram) ∧
    ∀ (t t' : Fetched) (signature : Text), t.Relaid t' →
      (t.toTransaction signature).map (·.events pool program tokenProgram) =
        (t'.toTransaction signature).map (·.events pool program tokenProgram) := by
  have hevents {tx tx' : Transaction} (h : tx.Relaid tx') :
      tx.events pool program tokenProgram = tx'.events pool program tokenProgram := by
    rw [events, events, h.outcomes]
  constructor
  · intro tx tx' h
    exact ⟨hevents h, by rw [warnings, warnings, h.outcomes]⟩
  · intro t t' signature h
    obtain ⟨f, hf, hf'⟩ | ⟨tx, tx', htx, htx', hrelaid⟩ := h.toTransaction signature
    · rw [hf, hf']
    · rw [htx, htx']
      exact congrArg Except.ok (hevents hrelaid)

/-- A settlement of the pool and the transfer of 513 that it invoked, for some account table. The
table lacks the last account of the settlement. -/
def settlementIn (keys : List Key) : Transaction where
  signature := "a"
  slot := 5
  keys := keys
  instructions := [⟨keys.idxOf (.ofNat 20),
    [keys.idxOf (.ofNat 2), keys.idxOf (.ofNat 4), keys.idxOf (.ofNat 99)],
    Tag.settleFunds.code :: Call.oneMarket.seed ++ List.replicate 16 0⟩]
  inner := [(0, .only ⟨keys.idxOf (.ofNat 19), [keys.idxOf (.ofNat 99), keys.idxOf (.ofNat 15)],
    [3, 1, 2, 0, 0, 0, 0, 0, 0]⟩)]

def settlementFetched (own writable readOnly : List Key) : Fetched where
  slot := 5
  keys := own
  instructions := (settlementIn (own ++ (writable ++ readOnly))).instructions
  outcome := some {
    inner := (settlementIn (own ++ (writable ++ readOnly))).inner.map fun e =>
      (e.1, e.2.map fun c => ⟨c.program, c.accounts, .bytes c.data⟩)
    loaded := some ⟨writable, readOnly⟩ }

theorem events_relaid_settlement :
    let own : List Key := [.ofNat 2, .ofNat 4, .ofNat 15, .ofNat 19, .ofNat 20]
    let mixed : List Key :=
      [.ofNat 19, .ofNat 7, .ofNat 15, .ofNat 20, .ofNat 2, .ofNat 4, .ofNat 2]
    let answer := settlementFetched own [] []
    let answer' := settlementFetched [.ofNat 19, .ofNat 7] [.ofNat 15, .ofNat 20, .ofNat 2]
      [.ofNat 4, .ofNat 2]
    (settlementIn own).Relaid (settlementIn mixed) ∧
      (settlementIn mixed).events Call.oneMarket (.ofNat 20) (.ofNat 19) =
        [.settle ⟨"a", 5, .ofNat 4, .ofNat 2, [⟨.ofNat 18, 513⟩]⟩] ∧
      (settlementIn own).events Call.oneMarket (.ofNat 20) (.ofNat 19) =
        (settlementIn mixed).events Call.oneMarket (.ofNat 20) (.ofNat 19) ∧
      answer.Relaid answer' ∧
      (answer.toTransaction "a").map (·.events Call.oneMarket (.ofNat 20) (.ofNat 19)) =
        (answer'.toTransaction "a").map (·.events Call.oneMarket (.ofNat 20) (.ofNat 19)) := by
  intro own mixed answer answer'
  obtain ⟨hevents, hfetched⟩ := events_relaid Call.oneMarket (.ofNat 20) (.ofNat 19)
  have hinner : Table.mapValues (·.resolved own) (settlementIn own).inner =
      Table.mapValues (·.resolved mixed) (settlementIn mixed).inner := by
    decide +kernel
  have hrelaid : (settlementIn own).Relaid (settlementIn mixed) := by
    refine ⟨rfl, rfl, by decide +kernel, fun place => ?_⟩
    rw [resolved_innerOf, resolved_innerOf]
    exact congrArg (fun t => (Table.get? t (place : Int)).getD []) hinner
  have hanswers : answer.Relaid answer' := ⟨rfl, by decide +kernel, by rfl⟩
  exact ⟨hrelaid, by decide +kernel, (hevents _ _ hrelaid).1, hanswers, hfetched _ _ "a" hanswers⟩

end Transaction

end SignalPool
