import SignalPool.Proofs.Grouping
import SignalPool.Proofs.Tables

namespace SignalPool.Table

variable {κ α β : Type}

theorem keys_map_key (f : κ → α) (ks : List κ) : keys (ks.map fun k => (k, f k)) = ks := by
  simp [keys, Function.comp_def]

variable [DecidableEq κ]

/-- One pass over some elements, each of which changes what the table holds for its key, leaves one
entry for each key, in the order in which the keys first come. The entry of a key holds its value,
where an element changes the value of its own key alone, and in the way it changes the table. -/
theorem foldl_insert_eq (key : β → κ) (put : Option α → β → α) (value : List β → κ → α)
    (hother : ∀ xs x k, key x ≠ k → value (xs ++ [x]) k = value xs k)
    (hfirst : ∀ xs x, key x ∉ xs.map key → value (xs ++ [x]) (key x) = put none x)
    (hagain : ∀ xs x, key x ∈ xs.map key →
      value (xs ++ [x]) (key x) = put (some (value xs (key x))) x) (xs : List β) :
    xs.foldl (fun t x => insert t (key x) (put (get? t (key x)) x)) [] =
      (xs.map key).eraseDups.map fun k => (k, value xs k) := by
  -- From the end: the last element changes the entry of its own key, or appends one.
  induction xs using List.reverseRecOn with
  | nil => rfl
  | append_singleton xs x ih =>
    rw [List.foldl_concat, ih, List.map_append, List.map_singleton, Grouping.eraseDups_concat,
      get?_map_key]
    by_cases hx : key x ∈ xs.map key
    · have hmem : key x ∈ (xs.map key).eraseDups := List.mem_eraseDups.mpr hx
      rw [if_pos hmem, if_pos hx, insert_map_key _ (Grouping.nodup_eraseDups _) hmem]
      apply List.map_congr_left
      intro k _
      by_cases hk : k = key x
      · subst hk
        rw [if_pos rfl, hagain xs x hx]
      · rw [if_neg hk, hother xs x k (Ne.symm hk)]
    · have hmem : key x ∉ (xs.map key).eraseDups := mt List.mem_eraseDups.mp hx
      have hkeys : key x ∉ keys ((xs.map key).eraseDups.map fun k => (k, value xs k)) := by
        rw [keys_map_key]
        exact hmem
      have hold : (xs.map key).eraseDups.map (fun k => (k, value xs k)) =
          (xs.map key).eraseDups.map fun k => (k, value (xs ++ [x]) k) := by
        apply List.map_congr_left
        intro k hk
        rw [hother xs x k fun h => hmem (h ▸ hk)]
      rw [if_neg hmem, if_neg hx, insert_of_notMem hkeys, hold, List.map_append,
        List.map_singleton, hfirst xs x hx]

theorem insert_of_mem {t : Table κ α} {k : κ} {a : α} (h : (k, a) ∈ t)
    (hone : ∀ e ∈ t, e.1 = k → e = (k, a)) : insert t k a = t := by
  induction t with
  | nil => cases h
  | cons e t ih =>
    by_cases he : e.1 = k
    · rw [hone e List.mem_cons_self he, insert, if_pos rfl]
    · have hmem : (k, a) ∈ t :=
        (List.mem_cons.mp h).resolve_left fun h => he (congrArg Prod.fst h).symm
      rw [insert, if_neg he, ih hmem fun e' he' => hone e' (List.mem_cons_of_mem e he')]

theorem ofList_map [DecidableEq β] (key : β → κ) (value : β → α) {xs : List β}
    (h : ∀ x ∈ xs, ∀ y ∈ xs, key x = key y → x = y) :
    ofList (xs.map fun x => (key x, value x)) = xs.eraseDups.map fun x => (key x, value x) := by
  induction xs using List.reverseRecOn with
  | nil => rfl
  | append_singleton xs x ih =>
    have hinit := ih fun y hy z hz => h y (List.mem_append_left _ hy) z (List.mem_append_left _ hz)
    have hsame : ∀ y ∈ xs, key y = key x → y = x := fun y hy =>
      h y (List.mem_append_left _ hy) x (List.mem_append_right _ (List.mem_singleton_self x))
    rw [ofList, List.map_append, List.map_singleton, List.foldl_concat, ← ofList, hinit,
      Grouping.eraseDups_concat]
    by_cases hx : x ∈ xs
    · rw [if_pos hx]
      have hmem : x ∈ xs.eraseDups := List.mem_eraseDups.mpr hx
      refine insert_of_mem (List.mem_map.mpr ⟨x, hmem, rfl⟩) fun e he hkey => ?_
      obtain ⟨y, hy, rfl⟩ := List.mem_map.mp he
      rw [hsame y (List.mem_eraseDups.mp hy) hkey]
    · have hkeys : key x ∉ keys (xs.eraseDups.map fun y => (key y, value y)) := by
        intro hk
        obtain ⟨e, he, hkey⟩ := List.mem_map.mp hk
        obtain ⟨y, hy, rfl⟩ := List.mem_map.mp he
        have hmem : y ∈ xs := List.mem_eraseDups.mp hy
        exact hx (hsame y hmem hkey ▸ hmem)
      rw [if_neg hx, insert_of_notMem hkeys, List.map_append, List.map_singleton]

theorem get?_map {key : β → κ} {value : β → α} {xs : List β} {a : β} (ha : a ∈ xs)
    (h : ∀ x ∈ xs, key x = key a → x = a) :
    get? (xs.map fun x => (key x, value x)) (key a) = some (value a) := by
  induction xs with
  | nil => cases ha
  | cons x xs ih =>
    by_cases hx : key x = key a
    · rw [h x List.mem_cons_self hx, List.map_cons, get?, if_pos rfl]
    · have hmem : a ∈ xs := (List.mem_cons.mp ha).resolve_left fun h => hx (h ▸ rfl)
      rw [List.map_cons, get?, if_neg hx]
      exact ih hmem fun y hy => h y (List.mem_cons_of_mem x hy)

end SignalPool.Table
