import SignalPool.Fault
import SignalPool.Key

namespace SignalPool

inductive Field where
  | word (w : Width) (value : Int)
  | key (k : Key)
  deriving DecidableEq

namespace Field

def size : Field → Nat
  | word w _ => w.size
  | key _ => 32

def sizeAll : List Field → Nat
  | [] => 0
  | f :: fs => f.size + sizeAll fs

def encode : Field → Except RangeFault Bytes
  | word w value => w.encode value
  | key k => .ok k.bytes

/-- Fields one after the other; the first that does not fit is the failure. -/
def encodeAll : List Field → Except RangeFault Bytes
  | [] => .ok []
  | f :: fs =>
    match f.encode with
    | .error o => .error o
    | .ok bs =>
      match encodeAll fs with
      | .error o => .error o
      | .ok rest => .ok (bs ++ rest)

@[simp] theorem encodeAll_nil : encodeAll [] = .ok [] := rfl

theorem encodeAll_cons_ok {f : Field} {fs : List Field} {bs : Bytes} :
    encodeAll (f :: fs) = .ok bs ↔
      ∃ head tail, f.encode = .ok head ∧ encodeAll fs = .ok tail ∧ bs = head ++ tail := by
  simp only [encodeAll]
  cases hf : f.encode with
  | error o => simp
  | ok head =>
    cases ht : encodeAll fs with
    | error o => simp
    | ok tail => simp [eq_comm]

theorem encodeAll_append_ok {fs gs : List Field} {bs : Bytes} :
    encodeAll (fs ++ gs) = .ok bs ↔
      ∃ head tail, encodeAll fs = .ok head ∧ encodeAll gs = .ok tail ∧ bs = head ++ tail := by
  induction fs generalizing bs with
  | nil => simp
  | cons f fs ih =>
    rw [List.cons_append, encodeAll_cons_ok]
    constructor
    · rintro ⟨head, tail, hf, ht, rfl⟩
      obtain ⟨mid, rest, hm, hr, rfl⟩ := ih.mp ht
      refine ⟨head ++ mid, rest, ?_, hr, (List.append_assoc head mid rest).symm⟩
      exact encodeAll_cons_ok.mpr ⟨head, mid, hf, hm, rfl⟩
    · rintro ⟨xs, ys, hx, hy, rfl⟩
      obtain ⟨head, mid, hf, hm, rfl⟩ := encodeAll_cons_ok.mp hx
      refine ⟨head, mid ++ ys, hf, ih.mpr ⟨mid, ys, hm, hy, rfl⟩, ?_⟩
      exact List.append_assoc head mid ys

theorem length_of_encode {f : Field} {bs : Bytes} (h : f.encode = .ok bs) :
    bs.length = f.size := by
  cases f with
  | word w value =>
    obtain ⟨_, _, rfl⟩ := Width.encode_eq_ok_iff.mp h
    simp [size]
  | key k =>
    have hb : k.bytes = bs := Except.ok.inj h
    rw [← hb, k.size_eq, size]

theorem sizeAll_append (fs gs : List Field) : sizeAll (fs ++ gs) = sizeAll fs + sizeAll gs := by
  induction fs with
  | nil => simp [sizeAll]
  | cons f fs ih => rw [List.cons_append, sizeAll, ih, sizeAll, Nat.add_assoc]

theorem length_of_encodeAll {fs : List Field} {bs : Bytes} (h : encodeAll fs = .ok bs) :
    bs.length = sizeAll fs := by
  induction fs generalizing bs with
  | nil =>
    have hb : [] = bs := Except.ok.inj h
    simp [← hb, sizeAll]
  | cons f fs ih =>
    obtain ⟨head, tail, hf, ht, rfl⟩ := encodeAll_cons_ok.mp h
    simp [length_of_encode hf, ih ht, sizeAll]

end Field

end SignalPool
