namespace SignalPool

/-- A finite set of options, each with its number in layouts and its name in reports. -/
class Coded (α : Type) where
  code : α → Nat
  ofCode? : Nat → Option α
  name : α → String
  ofCode?_code : ∀ a, ofCode? (code a) = some a
  code_of_ofCode? : ∀ n a, ofCode? n = some a → code a = n

/-- What a payload states where an option is due: an option, or a number that names none. -/
inductive Choice (α : Type) [Coded α] where
  | option (a : α)
  | number (n : Int) (unnamed : ∀ a : α, (Coded.code a : Int) ≠ n)

namespace Choice

variable {α : Type} [Coded α]

def toInt : Choice α → Int
  | option a => Coded.code a
  | number n _ => n

theorem toInt_option (a : α) : (option a).toInt = Coded.code a := rfl

def ofInt (n : Int) : Choice α :=
  match h : Coded.ofCode? (α := α) n.toNat with
  | some a =>
    if hn : 0 ≤ n then option a
    else number n (fun b hb => hn (hb ▸ Int.natCast_nonneg _))
  | none => number n (fun b hb => by
      rw [← hb, Int.toNat_natCast, Coded.ofCode?_code] at h
      exact Option.some_ne_none b h)

@[simp] theorem toInt_ofInt (n : Int) : (ofInt n : Choice α).toInt = n := by
  unfold ofInt
  split
  · rename_i a h
    split
    · rename_i hn
      have hc := Coded.code_of_ofCode? _ _ h
      rw [toInt, hc]
      exact Int.toNat_of_nonneg hn
    · rfl
  · rfl

theorem toInt_inj {c d : Choice α} (h : c.toInt = d.toInt) : c = d := by
  cases c with
  | option a =>
    cases d with
    | option b =>
      have hab : Coded.code a = Coded.code b := Int.ofNat_inj.mp h
      have ha := Coded.ofCode?_code a
      rw [hab, Coded.ofCode?_code] at ha
      rw [Option.some.inj ha]
    | number n hn => exact absurd h (hn a)
  | number m hm =>
    cases d with
    | option b => exact absurd h.symm (hm b)
    | number n hn =>
      simp only [toInt] at h
      subst h
      rfl

@[simp] theorem ofInt_toInt (c : Choice α) : ofInt c.toInt = c := toInt_inj (toInt_ofInt _)

instance : DecidableEq (Choice α) := fun c d =>
  if h : c.toInt = d.toInt then .isTrue (toInt_inj h) else .isFalse (fun e => h (e ▸ rfl))

def text : Choice α → String
  | option a => Coded.name a
  | number n _ => toString n

end Choice

inductive Side where
  | bid | ask
  deriving DecidableEq, Repr

instance : Coded Side where
  code
    | .bid => 0
    | .ask => 1
  ofCode?
    | 0 => some .bid
    | 1 => some .ask
    | _ => none
  name
    | .bid => "BID"
    | .ask => "ASK"
  ofCode?_code a := by cases a <;> rfl
  code_of_ofCode? n a h := by
    split at h <;> simp_all only [Option.some.injEq, reduceCtorEq] <;> subst h <;> rfl

inductive OrderType where
  | limit | immediateOrCancel | postOnly
  deriving DecidableEq, Repr

instance : Coded OrderType where
  code
    | .limit => 0
    | .immediateOrCancel => 1
    | .postOnly => 2
  ofCode?
    | 0 => some .limit
    | 1 => some .immediateOrCancel
    | 2 => some .postOnly
    | _ => none
  name
    | .limit => "LIMIT"
    | .immediateOrCancel => "IMMEDIATE_OR_CANCEL"
    | .postOnly => "POST_ONLY"
  ofCode?_code a := by cases a <;> rfl
  code_of_ofCode? n a h := by
    split at h <;> simp_all only [Option.some.injEq, reduceCtorEq] <;> subst h <;> rfl

inductive SelfTrade where
  | decrementTake | cancelProvide | abortTransaction
  deriving DecidableEq, Repr

instance : Coded SelfTrade where
  code
    | .decrementTake => 0
    | .cancelProvide => 1
    | .abortTransaction => 2
  ofCode?
    | 0 => some .decrementTake
    | 1 => some .cancelProvide
    | 2 => some .abortTransaction
    | _ => none
  name
    | .decrementTake => "DECREMENT_TAKE"
    | .cancelProvide => "CANCEL_PROVIDE"
    | .abortTransaction => "ABORT_TRANSACTION"
  ofCode?_code a := by cases a <;> rfl
  code_of_ofCode? n a h := by
    split at h <;> simp_all only [Option.some.injEq, reduceCtorEq] <;> subst h <;> rfl

end SignalPool
