import Mathlib.Data.List.TakeWhile
import SignalPool.Proofs.Attribution

namespace SignalPool.Pairing

/-- The paired orders of an account, newest first. -/
def pairedOf (events : List PoolEvent) (account : Key) : List PairedOrder :=
  (pair events).filter (·.order.openOrders = account)

/-- What a newer event does to the paired orders of an account, newest first. A new order takes a
settlement only if one was left over. -/
inductive Grows (account : Key) : PoolEvent → List PairedOrder → List PairedOrder → Prop
  | foreign {e : PoolEvent} {ps : List PairedOrder} (he : e.openOrders ≠ account) :
      Grows account e ps ps
  | placed {o : OrderEvent} {ps : List PairedOrder} {settle : Option SettleEvent}
      (ho : o.openOrders = account) (hps : settle ≠ none → ∀ p ∈ ps, p.settle ≠ none) :
      Grows account (.order o) ps (⟨o, settle⟩ :: ps)
  | spare {s : SettleEvent} {ps : List PairedOrder} (hs : s.openOrders = account)
      (hps : ∀ p ∈ ps, p.settle ≠ none) : Grows account (.settle s) ps ps
  | settled {s : SettleEvent} {o : OrderEvent} {newer older : List PairedOrder}
      (hs : s.openOrders = account) (holder : ∀ p ∈ older, p.settle ≠ none) :
      Grows account (.settle s) (newer ++ ⟨o, none⟩ :: older) (newer ++ ⟨o, some s⟩ :: older)

/-- The paired orders that stand, counted from the oldest, still do, and those that have a
settlement keep it. -/
def Kept (ps qs : List PairedOrder) : Prop :=
  ∀ (k : Nat) (o : OrderEvent) (settle : Option SettleEvent), ps.reverse[k]? = some ⟨o, settle⟩ →
    ∃ settle', qs.reverse[k]? = some ⟨o, settle'⟩ ∧ (settle ≠ none → settle' = settle)

theorem Kept.refl (ps : List PairedOrder) : Kept ps ps :=
  fun _ _ settle h => ⟨settle, h, fun _ => rfl⟩

theorem Kept.trans {ps qs rs : List PairedOrder} (h : Kept ps qs) (h' : Kept qs rs) :
    Kept ps rs := by
  intro k o settle hk
  obtain ⟨settle₁, hk₁, hs₁⟩ := h k o settle hk
  obtain ⟨settle₂, hk₂, hs₂⟩ := h' k o settle₁ hk₁
  refine ⟨settle₂, hk₂, fun hne => ?_⟩
  have he : settle₁ = settle := hs₁ hne
  subst he
  exact hs₂ hne

theorem Grows.kept {account : Key} {e : PoolEvent} {ps qs : List PairedOrder}
    (h : Grows account e ps qs) : Kept ps qs := by
  cases h with
  | foreign => exact Kept.refl ps
  | spare => exact Kept.refl ps
  | placed =>
    intro k o settle hk
    refine ⟨settle, ?_, fun _ => rfl⟩
    rw [List.reverse_cons, List.getElem?_append_left (List.getElem?_eq_some_iff.mp hk).1]
    exact hk
  | @settled s o newer older =>
    intro k o' settle hk
    simp only [List.reverse_append, List.reverse_cons, List.append_assoc,
      List.singleton_append] at hk ⊢
    rcases Nat.lt_trichotomy k older.reverse.length with hlt | rfl | hgt
    · rw [List.getElem?_append_left hlt] at hk ⊢
      exact ⟨settle, hk, fun _ => rfl⟩
    · rw [List.getElem?_append_right (Nat.le_refl _), Nat.sub_self, List.getElem?_cons_zero] at hk ⊢
      cases hk
      exact ⟨some s, rfl, fun hne => absurd rfl hne⟩
    · obtain ⟨d, rfl⟩ : ∃ d, k = older.reverse.length + (d + 1) :=
        ⟨k - older.reverse.length - 1, by omega⟩
      rw [List.getElem?_append_right (by omega), Nat.add_sub_cancel_left,
        List.getElem?_cons_succ] at hk ⊢
      exact ⟨settle, hk, fun _ => rfl⟩

theorem mem_of_mem_assign {os : List OrderEvent} {ss : List SettleEvent} {p : PairedOrder}
    (hp : p ∈ assign os ss) : p.order ∈ os := by
  rw [← map_order_assign os ss]
  exact List.mem_map_of_mem hp

theorem settled_of_length_le {os : List OrderEvent} {ss : List SettleEvent}
    (h : os.length ≤ ss.length) : ∀ p ∈ assign os ss, p.settle ≠ none := by
  induction os generalizing ss with
  | nil => simp [assign]
  | cons o os ih =>
    cases ss with
    | nil => simp at h
    | cons s ss =>
      exact List.forall_mem_cons.mpr ⟨Option.some_ne_none s, ih (Nat.le_of_succ_le_succ h)⟩

theorem assign_concat_order (os : List OrderEvent) (o : OrderEvent) (ss : List SettleEvent) :
    assign (os ++ [o]) ss = assign os ss ++ [⟨o, ss[os.length]?⟩] := by
  induction os generalizing ss with
  | nil => cases ss <;> rfl
  | cons x os ih => cases ss <;> simp [assign, ih]

theorem assign_concat_settle (os : List OrderEvent) (ss : List SettleEvent) (s : SettleEvent) :
    (assign os (ss ++ [s]) = assign os ss ∧ ∀ p ∈ assign os ss, p.settle ≠ none) ∨
      ∃ older o newer, assign os ss = older ++ ⟨o, none⟩ :: newer ∧
        assign os (ss ++ [s]) = older ++ ⟨o, some s⟩ :: newer ∧ ∀ p ∈ older, p.settle ≠ none := by
  induction os generalizing ss with
  | nil => exact .inl ⟨rfl, by simp [assign]⟩
  | cons o os ih =>
    cases ss with
    | nil => exact .inr ⟨[], o, assign os [], rfl, rfl, by simp⟩
    | cons t ss =>
      have hhead : ∀ {ps : List PairedOrder}, (∀ p ∈ ps, p.settle ≠ none) →
          ∀ p ∈ (⟨o, some t⟩ : PairedOrder) :: ps, p.settle ≠ none := by
        intro ps hps
        exact List.forall_mem_cons.mpr ⟨Option.some_ne_none t, hps⟩
      obtain ⟨he, hall⟩ | ⟨older, o', newer, he, he', hall⟩ := ih ss
      · exact .inl ⟨congrArg (_ :: ·) he, hhead hall⟩
      · exact .inr ⟨⟨o, some t⟩ :: older, o', newer, congrArg (_ :: ·) he, congrArg (_ :: ·) he',
          hhead hall⟩

theorem ofAccount_concat_order (es : List PoolEvent) (o : OrderEvent) :
    ∃ settle, ofAccount (es ++ [PoolEvent.order o]) = ofAccount es ++ [⟨o, settle⟩] ∧
      (settle ≠ none → ∀ p ∈ ofAccount es, p.settle ≠ none) := by
  have hsettles :
      ((es ++ [PoolEvent.order o]).dropWhile PoolEvent.isSettle).filterMap PoolEvent.settle? =
        (es.dropWhile PoolEvent.isSettle).filterMap PoolEvent.settle? := by
    rw [List.dropWhile_append]
    by_cases h : es.dropWhile PoolEvent.isSettle = []
    · simp [h]
    · simp [h, List.filterMap_append]
  have horders : (es ++ [PoolEvent.order o]).filterMap PoolEvent.order? =
      es.filterMap PoolEvent.order? ++ [o] := List.filterMap_append
  rw [ofAccount, ofAccount, hsettles, horders, assign_concat_order]
  refine ⟨_, rfl, fun hne => settled_of_length_le ?_⟩
  exact Nat.le_of_not_le fun hle => hne (List.getElem?_eq_none_iff.mpr hle)

theorem ofAccount_concat_settle (es : List PoolEvent) (s : SettleEvent) :
    (ofAccount (es ++ [PoolEvent.settle s]) = ofAccount es ∧ ∀ p ∈ ofAccount es, p.settle ≠ none) ∨
      ∃ older o newer, ofAccount es = older ++ ⟨o, none⟩ :: newer ∧
        ofAccount (es ++ [PoolEvent.settle s]) = older ++ ⟨o, some s⟩ :: newer ∧
        ∀ p ∈ older, p.settle ≠ none := by
  have horders : (es ++ [PoolEvent.settle s]).filterMap PoolEvent.order? =
      es.filterMap PoolEvent.order? := by simp [List.filterMap_append]
  by_cases h : es.dropWhile PoolEvent.isSettle = []
  · have hnone : es.filterMap PoolEvent.order? = [] := by
      apply List.filterMap_eq_nil_iff.mpr
      intro e he
      have hsettle : e.isSettle = true := List.dropWhile_eq_nil_iff.mp h e he
      cases e with
      | order o => cases hsettle
      | settle t => rfl
    rw [ofAccount, ofAccount, horders, hnone]
    exact .inl ⟨rfl, by simp [assign]⟩
  · have hsettles :
        ((es ++ [PoolEvent.settle s]).dropWhile PoolEvent.isSettle).filterMap PoolEvent.settle? =
          (es.dropWhile PoolEvent.isSettle).filterMap PoolEvent.settle? ++ [s] := by
      rw [List.dropWhile_append]
      simp [h, List.filterMap_append]
    rw [ofAccount, ofAccount, horders, hsettles]
    exact assign_concat_settle _ _ s

variable {events : List PoolEvent} {account : Key}

theorem of_mem_ofAccount {p : PairedOrder} (hp : p ∈ ofAccount (history events account)) :
    PoolEvent.order p.order ∈ events ∧ p.order.openOrders = account := by
  obtain ⟨e, he, hpe⟩ := List.mem_filterMap.mp (mem_of_mem_assign hp)
  obtain ⟨hm, ha⟩ := List.mem_filter.mp (List.mem_reverse.mp he)
  cases e with
  | order o =>
    cases hpe
    exact ⟨hm, of_decide_eq_true ha⟩
  | settle s => cases hpe

theorem pairedOf_eq : pairedOf events account = (ofAccount (history events account)).reverse := by
  have hgroup : ∀ a, ∀ p ∈ (ofAccount (history events a)).reverse, ∀ b,
      decide (p.order.openOrders = b) = decide (a = b) := by
    intro a p hp b
    rw [(of_mem_ofAccount (List.mem_reverse.mp hp)).2]
  rw [pairedOf, pair_eq_flatMap]
  refine Grouping.filter_flatMap_own_group hgroup (nodup_accounts events) fun p hp => ?_
  obtain ⟨hm, ha⟩ := of_mem_ofAccount (List.mem_reverse.mp hp)
  exact mem_accounts.mpr ⟨_, hm, ha⟩

theorem history_cons_of_eq {e : PoolEvent} (he : e.openOrders = account) :
    history (e :: events) account = history events account ++ [e] := by
  simp [history, he]

theorem history_cons_of_ne {e : PoolEvent} (he : e.openOrders ≠ account) :
    history (e :: events) account = history events account := by
  simp [history, he]

theorem grows_cons (e : PoolEvent) (events : List PoolEvent) (account : Key) :
    Grows account e (pairedOf events account) (pairedOf (e :: events) account) := by
  rw [pairedOf_eq, pairedOf_eq]
  by_cases he : e.openOrders = account
  · rw [history_cons_of_eq he]
    cases e with
    | order o =>
      obtain ⟨settle, hgrown, hall⟩ := ofAccount_concat_order (history events account) o
      rw [hgrown, List.reverse_append]
      exact .placed he fun hne p hp => hall hne p (List.mem_reverse.mp hp)
    | settle s =>
      obtain ⟨hsame, hall⟩ | ⟨older, o, newer, hold, hgrown, hall⟩ :=
        ofAccount_concat_settle (history events account) s
      · rw [hsame]
        exact .spare he fun p hp => hall p (List.mem_reverse.mp hp)
      · rw [hold, hgrown]
        simp only [List.reverse_append, List.reverse_cons, List.append_assoc,
          List.singleton_append]
        exact .settled he fun p hp => hall p (List.mem_reverse.mp hp)
  · rw [history_cons_of_ne he]
    exact .foreign he

theorem kept_append (newer events : List PoolEvent) (account : Key) :
    Kept (pairedOf events account) (pairedOf (newer ++ events) account) := by
  induction newer with
  | nil => exact Kept.refl _
  | cons e newer ih => exact ih.trans (grows_cons e (newer ++ events) account).kept

/-- A newer event adds an order in front or gives the oldest order without a settlement its own;
all else of each account stays, and however many events come, an order that is settled keeps its
settlement. -/
theorem pairedOf_grows (events : List PoolEvent) (account : Key) :
    (∀ e, Grows account e (pairedOf events account) (pairedOf (e :: events) account)) ∧
      ∀ newer, Kept (pairedOf events account) (pairedOf (newer ++ events) account) :=
  ⟨fun e => grows_cons e events account, fun newer => kept_append newer events account⟩

end SignalPool.Pairing
