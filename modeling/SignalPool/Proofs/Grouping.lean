import Mathlib.Data.List.Induction
import Mathlib.Data.List.Nodup
import SignalPool.Pairing

namespace SignalPool

namespace Grouping

variable {α κ : Type} [DecidableEq κ]

theorem eraseDups_concat (l : List κ) (x : κ) :
    (l ++ [x]).eraseDups = if x ∈ l then l.eraseDups else l.eraseDups ++ [x] := by
  rw [List.eraseDups_append]
  by_cases hx : x ∈ l
  · simp [List.removeAll, hx]
  · simp [List.removeAll, hx, List.eraseDups_cons]

theorem pairwise_eraseDups (l : List κ) :
    l.eraseDups.Pairwise fun a b => l.idxOf a < l.idxOf b := by
  induction l using List.reverseRecOn with
  | nil => exact List.Pairwise.nil
  | append_singleton l x ih =>
    have hl : l.eraseDups.Pairwise fun a b => (l ++ [x]).idxOf a < (l ++ [x]).idxOf b := by
      refine ih.imp_of_mem fun {a b} ha hb hab => ?_
      rw [List.idxOf_append_of_mem (List.mem_eraseDups.mp ha),
        List.idxOf_append_of_mem (List.mem_eraseDups.mp hb)]
      exact hab
    rw [eraseDups_concat]
    by_cases hx : x ∈ l
    · rw [if_pos hx]
      exact hl
    · rw [if_neg hx]
      refine List.pairwise_append.mpr ⟨hl, List.pairwise_singleton _ _, ?_⟩
      intro a ha b hb
      have ha' : a ∈ l := List.mem_eraseDups.mp ha
      have hlt : l.idxOf a < l.length := List.idxOf_lt_length_of_mem ha'
      rw [List.mem_singleton.mp hb, List.idxOf_append_of_mem ha', List.idxOf_append_of_notMem hx]
      omega

theorem nodup_eraseDups (l : List κ) : l.eraseDups.Nodup :=
  (pairwise_eraseDups l).imp fun h e => by simp [e] at h

/-- The elements of a list once each, in the order in which they first come. -/
structure Firsts (firsts l : List κ) : Prop where
  once : firsts.Nodup
  mem_iff : ∀ k, k ∈ firsts ↔ k ∈ l
  ordered : firsts.Pairwise fun a b => l.idxOf a < l.idxOf b

theorem firsts_eraseDups (l : List κ) : Firsts l.eraseDups l where
  once := nodup_eraseDups l
  mem_iff _ := List.mem_eraseDups
  ordered := pairwise_eraseDups l

/-- Of groups under distinct keys, the elements that belong to one key are its group. -/
theorem filter_flatMap_group {group : κ → List α} {belongs : κ → α → Bool}
    (hgroup : ∀ j, ∀ x ∈ group j, ∀ k, belongs k x = decide (j = k)) {keys : List κ}
    (hkeys : keys.Nodup) (k : κ) :
    (keys.flatMap group).filter (belongs k) = if k ∈ keys then group k else [] := by
  induction keys with
  | nil => rfl
  | cons j keys ih =>
    obtain ⟨hj, hn⟩ := List.nodup_cons.mp hkeys
    rw [List.flatMap_cons, List.filter_append, ih hn]
    by_cases hk : j = k
    · subst hk
      have hself : (group j).filter (belongs j) = group j := by
        apply List.filter_eq_self.mpr
        intro x hx
        simp [hgroup j x hx]
      simp [hself, hj]
    · have hnone : (group j).filter (belongs k) = [] := by
        apply List.filter_eq_nil_iff.mpr
        intro x hx
        simp [hgroup j x hx, hk]
      simp [hnone, Ne.symm hk]

theorem filter_flatMap_own_group {group : κ → List α} {belongs : κ → α → Bool}
    (hgroup : ∀ j, ∀ x ∈ group j, ∀ k, belongs k x = decide (j = k)) {keys : List κ}
    (hkeys : keys.Nodup) {k : κ} (hk : ∀ x ∈ group k, k ∈ keys) :
    (keys.flatMap group).filter (belongs k) = group k := by
  rw [filter_flatMap_group hgroup hkeys]
  by_cases hmem : k ∈ keys
  · exact if_pos hmem
  · rw [if_neg hmem, List.eq_nil_iff_forall_not_mem.mpr fun x hx => hmem (hk x hx)]

omit [DecidableEq κ] in
theorem nodup_flatMap_group {group : κ → List α} (hself : ∀ k, (group k).Nodup)
    (hgroup : ∀ j k x, x ∈ group j → x ∈ group k → j = k) {keys : List κ}
    (hkeys : keys.Nodup) : (keys.flatMap group).Nodup := by
  apply List.nodup_flatMap.mpr
  refine ⟨fun k _ => hself k, hkeys.imp ?_⟩
  intro j k hne x hj hk
  exact hne (hgroup j k x hj hk)

end Grouping

namespace Pairing

variable {events : List PoolEvent} {account : Key}

def firstPlace (events : List PoolEvent) (account : Key) : Nat :=
  (events.map PoolEvent.openOrders).idxOf account

theorem mem_accounts : account ∈ accounts events ↔ ∃ e ∈ events, e.openOrders = account := by
  rw [accounts, List.mem_eraseDups, List.mem_map]

theorem nodup_accounts (events : List PoolEvent) : (accounts events).Nodup :=
  Grouping.nodup_eraseDups _

theorem pairwise_accounts (events : List PoolEvent) :
    (accounts events).Pairwise fun a b => firstPlace events a < firstPlace events b :=
  Grouping.pairwise_eraseDups _

def plainOrder (signature : String) (slot : Int) (account : Nat) : OrderEvent where
  signature := signature
  slot := slot
  openOrders := .ofNat account
  market := .zero
  seed := []
  terms := {
    side := .option .bid, limitPrice := 1, assetRatio := 1, orderType := .option .limit
    clientId := 0, selfTrade := .option .decrementTake, sourceIndex := 0, targetIndex := 1
    marketIndex := 0, coinLotSize := 1, pcLotSize := 1, targetMint := .zero, matchLimit := 65535 }
  transferred := 0

def plainSettle (signature : String) (slot : Int) (account : Nat) : SettleEvent where
  signature := signature
  slot := slot
  openOrders := .ofNat account
  market := .zero
  amounts := []

end Pairing

end SignalPool
