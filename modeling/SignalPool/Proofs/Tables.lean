import Mathlib.Data.List.Basic
import SignalPool.Table

namespace SignalPool.Table

variable {κ α β : Type}

/-- The values that a function gives for some keys. -/
def tabulate (f : κ → Option α) (ks : List κ) : Table κ α :=
  ks.filterMap fun k => (f k).map fun a => (k, a)

theorem tabulate_cons (f : κ → Option α) (k : κ) (ks : List κ) :
    tabulate f (k :: ks) =
      match f k with
      | some a => (k, a) :: tabulate f ks
      | none => tabulate f ks := by
  rw [tabulate, List.filterMap_cons]
  cases f k <;> rfl

def mapValues (f : α → β) (t : Table κ α) : Table κ β := t.map fun e => (e.1, f e.2)

@[simp] theorem mapValues_cons (f : α → β) (e : κ × α) (t : Table κ α) :
    mapValues f (e :: t) = (e.1, f e.2) :: mapValues f t := rfl

variable [DecidableEq κ]

theorem get?_tabulate (f : κ → Option α) (ks : List κ) (k : κ) :
    (tabulate f ks).get? k = if k ∈ ks then f k else none := by
  induction ks with
  | nil => rfl
  | cons j ks ih =>
    rw [tabulate_cons]
    by_cases hj : j = k
    · subst hj
      cases hf : f j with
      | none => simp [ih, hf]
      | some a => simp [get?]
    · cases hf : f j with
      | none => simp [ih, Ne.symm hj]
      | some a => simp [get?, hj, ih, Ne.symm hj]

theorem get?_map_key (f : κ → α) (keys : List κ) (k : κ) :
    get? (keys.map fun j => (j, f j)) k = if k ∈ keys then some (f k) else none := by
  have htabulate : keys.map (fun j => (j, f j)) = tabulate (some ∘ f) keys :=
    (congrFun List.filterMap_eq_map keys).symm
  rw [htabulate, get?_tabulate]
  rfl

theorem insert_of_notMem {t : Table κ α} {k : κ} (hk : k ∉ keys t) (a : α) :
    insert t k a = t ++ [(k, a)] := by
  induction t with
  | nil => rfl
  | cons e t ih =>
    obtain ⟨hne, ht⟩ : k ≠ e.1 ∧ k ∉ keys t := by simpa [keys] using hk
    rw [insert, if_neg hne.symm, ih ht, List.cons_append]

theorem insert_map_key (f : κ → α) {keys : List κ} (hkeys : keys.Nodup) {k : κ} (hk : k ∈ keys)
    (a : α) :
    insert (keys.map fun j => (j, f j)) k a = keys.map fun j => (j, if j = k then a else f j) := by
  induction keys with
  | nil => cases hk
  | cons j keys ih =>
    obtain ⟨hj, hn⟩ := List.nodup_cons.mp hkeys
    by_cases hjk : j = k
    · subst hjk
      have hrest : keys.map (fun i => (i, f i)) =
          keys.map fun i => (i, if i = j then a else f i) := by
        apply List.map_congr_left
        intro i hi
        rw [if_neg fun hij : i = j => hj (hij ▸ hi)]
      simp [insert, hrest]
    · have hmem : k ∈ keys := (List.mem_cons.mp hk).resolve_left (Ne.symm hjk)
      simp [insert, hjk, ih hn hmem]

theorem get?_mapValues (f : α → β) (t : Table κ α) (k : κ) :
    (mapValues f t).get? k = (t.get? k).map f := by
  induction t with
  | nil => rfl
  | cons e t ih =>
    rw [mapValues_cons, get?, get?, ih]
    by_cases hk : e.1 = k <;> simp [hk]

theorem mapValues_insert (f : α → β) (t : Table κ α) (k : κ) (a : α) :
    mapValues f (t.insert k a) = (mapValues f t).insert k (f a) := by
  induction t with
  | nil => rfl
  | cons e t ih =>
    rw [mapValues_cons, insert, insert, ← ih]
    by_cases hk : e.1 = k <;> simp [hk]

theorem mapValues_ofList (f : α → β) (entries : List (κ × α)) :
    mapValues f (ofList entries) = ofList (mapValues f entries) := by
  have hfrom (t : Table κ α) :
      mapValues f (entries.foldl (fun t e => t.insert e.1 e.2) t) =
        (mapValues f entries).foldl (fun t e => t.insert e.1 e.2) (mapValues f t) := by
    induction entries generalizing t with
    | nil => rfl
    | cons e entries ih =>
      rw [List.foldl_cons, ih, mapValues_insert, mapValues_cons, List.foldl_cons]
  exact hfrom []

theorem get?_filter_key (p : κ → Bool) (t : Table κ α) (k : κ) :
    get? (t.filter fun e => p e.1) k = if p k then get? t k else none := by
  induction t with
  | nil => simp [get?]
  | cons e t ih =>
    by_cases hk : e.1 = k
    · subst hk
      cases hp : p e.1 <;> simp [get?, hp, ih]
    · cases hp : p e.1 <;> simp [get?, hp, hk, ih]

theorem get?_mapKeys {f : κ → κ} (hf : ∀ j k, f j = f k → j = k) (t : Table κ α) (k : κ) :
    get? (t.map fun e => (f e.1, e.2)) (f k) = get? t k := by
  induction t with
  | nil => rfl
  | cons e t ih =>
    by_cases hk : e.1 = k
    · simp [get?, hk]
    · have hfk : f e.1 ≠ f k := fun h => hk (hf e.1 k h)
      simp [get?, hk, hfk, ih]

variable {t : Table κ α} {k : κ} {a : α}

theorem exists_mem_of_get? (h : t.get? k = some a) : ∃ e ∈ t, e.2 = a := by
  induction t with
  | nil => cases h
  | cons e t ih =>
    by_cases hk : e.1 = k
    · rw [get?, if_pos hk] at h
      exact ⟨e, List.mem_cons_self, Option.some.inj h⟩
    · rw [get?, if_neg hk] at h
      obtain ⟨e', he', ha⟩ := ih h
      exact ⟨e', List.mem_cons_of_mem e he', ha⟩

theorem of_mem_insert {e : κ × α} (h : e ∈ t.insert k a) : e ∈ t ∨ e.2 = a := by
  induction t with
  | nil =>
    cases List.mem_singleton.mp h
    exact .inr rfl
  | cons e' t ih =>
    rw [insert] at h
    split at h
    · obtain rfl | ht := List.mem_cons.mp h
      · exact .inr rfl
      · exact .inl (List.mem_cons_of_mem e' ht)
    · obtain rfl | ht := List.mem_cons.mp h
      · exact .inl List.mem_cons_self
      · exact (ih ht).imp_left (List.mem_cons_of_mem e')

end SignalPool.Table
