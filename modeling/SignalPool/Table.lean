namespace SignalPool

/-- Values by key, in the order in which the keys first came. -/
abbrev Table (κ α : Type) := List (κ × α)

namespace Table

variable {κ α : Type} [DecidableEq κ]

def get? : Table κ α → κ → Option α
  | [], _ => none
  | (j, b) :: t, k => if j = k then some b else get? t k

/-- A key that is already there keeps its place and takes the new value. -/
def insert : Table κ α → κ → α → Table κ α
  | [], k, a => [(k, a)]
  | (j, b) :: t, k, a => if j = k then (j, a) :: t else (j, b) :: insert t k a

def ofList (entries : List (κ × α)) : Table κ α :=
  entries.foldl (fun t e => insert t e.1 e.2) []

def erase (t : Table κ α) (k : κ) : Table κ α := t.filter (fun e => e.1 ≠ k)

def keys (t : Table κ α) : List κ := t.map Prod.fst

theorem get?_insert (t : Table κ α) (k l : κ) (a : α) :
    get? (insert t k a) l = if k = l then some a else get? t l := by
  induction t with
  | nil => simp [insert, get?]
  | cons e t ih =>
    obtain ⟨j, b⟩ := e
    by_cases hj : j = k
    · subst hj
      by_cases hl : j = l <;> simp [insert, get?, hl]
    · by_cases hl : j = l
      · subst hl
        simp [insert, get?, hj, Ne.symm hj]
      · simp [insert, get?, hj, hl, ih]

theorem mem_keys_insert (t : Table κ α) (k l : κ) (a : α) :
    l ∈ keys (insert t k a) ↔ l = k ∨ l ∈ keys t := by
  induction t with
  | nil => simp [insert, keys]
  | cons e t ih =>
    obtain ⟨j, b⟩ := e
    by_cases hj : j = k
    · subst hj
      simp [insert, keys]
    · have hi : l ∈ keys ((j, b) :: insert t k a) ↔ l = j ∨ l ∈ keys (insert t k a) := by
        simp [keys]
      have ht : l ∈ keys ((j, b) :: t) ↔ l = j ∨ l ∈ keys t := by simp [keys]
      rw [insert, if_neg hj, hi, ht, ih]
      exact or_left_comm

theorem nodup_keys_insert (t : Table κ α) (k : κ) (a : α) (h : (keys t).Nodup) :
    (keys (insert t k a)).Nodup := by
  induction t with
  | nil => simp [insert, keys]
  | cons e t ih =>
    obtain ⟨j, b⟩ := e
    have hn : j ∉ keys t ∧ (keys t).Nodup := by simpa [keys] using h
    by_cases hj : j = k
    · subst hj
      simpa [insert, keys] using h
    · have hm : j ∉ keys (insert t k a) := fun hc =>
        ((mem_keys_insert t k j a).mp hc).elim hj hn.1
      have hc : (keys ((j, b) :: insert t k a)).Nodup ↔
          j ∉ keys (insert t k a) ∧ (keys (insert t k a)).Nodup := by simp [keys]
      rw [insert, if_neg hj, hc]
      exact ⟨hm, ih hn.2⟩

end Table

end SignalPool
