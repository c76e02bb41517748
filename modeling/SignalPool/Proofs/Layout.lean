import SignalPool.Reader

namespace SignalPool

namespace FormatFault

def isCut : FormatFault → Bool
  | wordCut .. | reversedCut .. | keyCut .. => true
  | _ => false

def isUnnamed : FormatFault → Bool
  | sideByte _ | orderTypeByte _ | selfTradeByte _ => true
  | _ => false

end FormatFault

/-- What a field takes up in a buffer: bytes of any content, or one byte that has to name one of so
many options. -/
inductive Piece where
  | bytes (size : Nat)
  | option (count : Nat)

namespace Piece

def size : Piece → Nat
  | bytes size => size
  | option _ => 1

def Named : Piece → Bytes → Prop
  | bytes _, _ => True
  | option count, bs => (bs.headD 0).toNat < count

def word (w : Width) : Piece := bytes w.size

def key : Piece := bytes 32

end Piece

abbrev Layout := List Piece

namespace Layout

def size : Layout → Nat
  | [] => 0
  | p :: l => p.size + size l

def Named : Layout → Bytes → Prop
  | [], _ => True
  | p :: l, bs => p.Named bs ∧ Named l (bs.drop p.size)

theorem size_append (l m : Layout) : size (l ++ m) = size l + size m := by
  induction l with
  | nil => simp [size]
  | cons p l ih => rw [List.cons_append, size, ih, size, Nat.add_assoc]

theorem named_append (l m : Layout) (bs : Bytes) :
    Named (l ++ m) bs ↔ Named l bs ∧ Named m (bs.drop (size l)) := by
  induction l generalizing bs with
  | nil => simp [Named, size]
  | cons p l ih =>
    rw [List.cons_append, Named, ih, Named, size, List.drop_drop, and_assoc]

theorem size_replicate (n : Nat) (p : Piece) : size (List.replicate n p) = n * p.size := by
  induction n with
  | zero => simp [size]
  | succ n ih => rw [List.replicate_succ, size, ih, Nat.succ_mul, Nat.add_comm]

theorem named_replicate_bytes (n k : Nat) (bs : Bytes) :
    Named (List.replicate n (.bytes k)) bs := by
  induction n generalizing bs with
  | zero => trivial
  | succ n ih => exact ⟨trivial, ih _⟩

/-- How reading a layout can end: at the place after it, at the end of a buffer too short for it, or
at an option byte that names none. -/
inductive Outcome {α : Type} (l : Layout) (c : Cursor) : Except FormatFault (α × Cursor) → Prop
  | done (a : α) (hsize : l.size ≤ c.rest.length) (hnamed : l.Named c.rest) :
      Outcome l c (.ok (a, ⟨c.offset + l.size, c.rest.drop l.size⟩))
  | cut {f : FormatFault} (hf : f.isCut) (hsize : c.rest.length < l.size) :
      Outcome l c (.error f)
  | unnamed {f : FormatFault} (hf : f.isUnnamed) (hnamed : ¬l.Named c.rest) :
      Outcome l c (.error f)

variable {α β : Type} {l m : Layout} {c : Cursor}

theorem Outcome.append_of_error {f : FormatFault}
    (h : l.Outcome c (.error f : Except FormatFault (α × Cursor))) :
    (l ++ m).Outcome c (.error f : Except FormatFault (β × Cursor)) := by
  cases h with
  | cut hf hsize =>
    refine .cut hf ?_
    rw [size_append]
    omega
  | unnamed hf hnamed => exact .unnamed hf fun h => hnamed ((named_append l m c.rest).mp h).1

theorem Outcome.append_of_done {x : Except FormatFault (α × Cursor)}
    (hsize : l.size ≤ c.rest.length) (hnamed : l.Named c.rest)
    (h : m.Outcome ⟨c.offset + l.size, c.rest.drop l.size⟩ x) : (l ++ m).Outcome c x := by
  have hlen : (Cursor.mk (c.offset + l.size) (c.rest.drop l.size)).rest.length =
      c.rest.length - l.size := List.length_drop
  cases h with
  | done a hsize' hnamed' =>
    have hboth : (l ++ m).size ≤ c.rest.length := by
      rw [size_append]
      omega
    have hdone := Outcome.done a hboth ((named_append l m c.rest).mpr ⟨hnamed, hnamed'⟩)
    rw [size_append, ← Nat.add_assoc, ← List.drop_drop] at hdone
    exact hdone
  | cut hf hsize' =>
    refine .cut hf ?_
    rw [size_append]
    omega
  | unnamed hf hnamed' => exact .unnamed hf fun h => hnamed' ((named_append l m c.rest).mp h).2

end Layout

namespace Reader

variable {α β : Type} {l m : Layout}

/-- The reader takes what the layout says, whatever the bytes are. -/
def Follows (r : Reader α) (l : Layout) : Prop := ∀ c, l.Outcome c (r.run c)

theorem Follows.pure (a : α) : (pure a : Reader α).Follows [] := by
  intro c
  exact Layout.Outcome.done (l := []) a (Nat.zero_le _) trivial

theorem Follows.bind {r : Reader α} {k : α → Reader β} (hr : r.Follows l)
    (hk : ∀ a, (k a).Follows m) : (r >>= k).Follows (l ++ m) := by
  intro c
  have h := hr c
  rw [StateT.run_bind]
  cases hrun : r.run c with
  | error f =>
    rw [hrun] at h
    exact h.append_of_error
  | ok p =>
    rw [hrun] at h
    cases h with
    | done a hsize hnamed => exact (hk a _).append_of_done hsize hnamed

theorem Follows.cons {r : Reader α} {k : α → Reader β} {p : Piece} (hr : r.Follows [p])
    (hk : ∀ a, (k a).Follows l) : (r >>= k).Follows (p :: l) :=
  hr.bind hk

theorem Follows.map {r : Reader α} (f : α → β) (hr : r.Follows l) : (f <$> r).Follows l := by
  have h := hr.bind (k := fun a => Pure.pure (f a)) fun a => Follows.pure (f a)
  rwa [List.append_nil, bind_pure_comp] at h

theorem chunk_follows {n : Nat} {short : Nat → Nat → FormatFault}
    (hshort : ∀ offset got, (short offset got).isCut) : (chunk n short).Follows [.bytes n] := by
  intro c
  obtain hn | hn := Nat.lt_or_ge c.rest.length n
  · rw [run_chunk_of_lt hn]
    exact .cut (hshort _ _) hn
  · rw [run_chunk_of_le hn]
    exact Layout.Outcome.done (l := [.bytes n]) (c.rest.take n) hn ⟨trivial, trivial⟩

theorem word_follows (w : Width) : (word w).Follows [.word w] :=
  (chunk_follows fun _ _ => rfl).map _

theorem int_follows (w : Width) : (int w).Follows [.word w] := (word_follows w).map _

theorem reversedWord_follows : reversedWord.Follows [.bytes 8] :=
  (chunk_follows fun _ _ => rfl).map _

theorem key_follows : key.Follows [.key] := by
  intro c
  obtain hl | hl := Nat.lt_or_ge c.rest.length 32
  · rw [run_key_of_lt hl]
    exact .cut rfl hl
  · rw [run_key_of_le hl]
    exact Layout.Outcome.done (l := [.key]) _ hl ⟨trivial, trivial⟩

theorem run_choice_of_some [Coded α] {bad : Nat → FormatFault} {c c' : Cursor} {n : Nat} {a : α}
    (hword : (word .u8).run c = .ok (n, c')) (ha : Coded.ofCode? n = some a) :
    (choice bad : Reader (Choice α)).run c = .ok (.option a, c') := by
  rw [choice, StateT.run_bind, hword]
  show StateT.run _ c' = _
  rw [ha]
  rfl

theorem run_choice_of_none [Coded α] {bad : Nat → FormatFault} {c c' : Cursor} {n : Nat}
    (hword : (word .u8).run c = .ok (n, c')) (hn : Coded.ofCode? (α := α) n = none) :
    (choice bad : Reader (Choice α)).run c = .error (bad n) := by
  rw [choice, StateT.run_bind, hword]
  show StateT.run _ c' = _
  rw [hn]
  rfl

theorem choice_follows [Coded α] {bad : Nat → FormatFault} {count : Nat}
    (hcount : ∀ n, (Coded.ofCode? (α := α) n).isSome ↔ n < count)
    (hbad : ∀ n, (bad n).isUnnamed) : (choice bad : Reader (Choice α)).Follows [.option count] := by
  intro c
  obtain ⟨offset, rest⟩ := c
  cases rest with
  | nil => exact .cut (f := .wordCut .u8 offset 0) rfl Nat.one_pos
  | cons b rest =>
    have hword : (word .u8).run ⟨offset, b :: rest⟩ = .ok (b.toNat, ⟨offset + 1, rest⟩) := rfl
    cases ha : Coded.ofCode? (α := α) b.toNat with
    | some a =>
      have hlt : b.toNat < count := (hcount _).mp (by rw [ha]; rfl)
      have hsize : Layout.size [.option count] ≤ (b :: rest).length := Nat.succ_pos _
      rw [run_choice_of_some hword ha]
      exact Layout.Outcome.done (Choice.option a) hsize ⟨hlt, trivial⟩
    | none =>
      rw [run_choice_of_none hword ha]
      refine .unnamed (hbad _) fun h => ?_
      have hsome := (hcount _).mpr h.1
      simp [ha] at hsome

theorem times_follows {r : Reader α} {p : Piece} (hr : r.Follows [p]) (n : Nat) :
    (times r n).Follows (List.replicate n p) := by
  induction n with
  | zero => exact .pure []
  | succ n ih => exact .cons hr fun a => ih.map (a :: ·)

theorem Follows.readAt {r : Reader α} (hr : r.Follows l) {data : Bytes} {offset : Nat}
    (hsize : offset + l.size ≤ data.length) (hnamed : l.Named (data.drop offset)) :
    ∃ a, r.readAt data offset = .ok a := by
  have hlen : (Cursor.mk offset (data.drop offset)).rest.length = data.length - offset :=
    List.length_drop
  have h := hr ⟨offset, data.drop offset⟩
  rw [Reader.readAt]
  cases hrun : r.run ⟨offset, data.drop offset⟩ with
  | ok p => exact ⟨p.1, rfl⟩
  | error f =>
    rw [hrun] at h
    cases h with
    | cut _ hshort => omega
    | unnamed _ hn => exact absurd hnamed hn

end Reader

end SignalPool
