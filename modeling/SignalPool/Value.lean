import SignalPool.Binary64
import SignalPool.Text

namespace SignalPool

inductive Value where
  | null
  | bool (b : Bool)
  | integer (n : Int)
  | real (x : Binary64)
  | text (t : Text)
  | list (items : List Value)
  | record (fields : List (Text × Value))

namespace Value

/-- Whether a value counts as set: null, false, zeros, empty texts and empty collections do not. -/
def isSet : Value → Bool
  | null => false
  | bool b => b
  | integer n => n ≠ 0
  | real x => !x.isZero
  | text t => t ≠ Text.empty
  | list items => !items.isEmpty
  | record fields => !fields.isEmpty

def field? (fields : List (Text × Value)) (name : Text) : Option Value :=
  (fields.find? (fun f => f.1 = name)).map Prod.snd

/-- The parts of a value one after the other: the items of a list, the characters of a text and the
names of a record. -/
def items? : Value → Option (List Value)
  | list items => some items
  | text t => some (t.codes.map fun n => text ⟨[n]⟩)
  | record fields => some (fields.map fun f => text f.1)
  | _ => none

def isWhole : Value → Int → Bool
  | bool b, n => n = if b then 1 else 0
  | integer m, n => m = n
  | real x, n => x.isWhole n
  | _, _ => false

def isNaN : Value → Bool
  | real x => x.datum = .nan
  | _ => false

mutual

/-- Whether two values are equal. Numbers are equal by what they denote, and records by their
fields in any order. What is no number equals nothing, yet counts as one thing inside a list or a
record. -/
def same : Value → Value → Bool
  | null, v => match v with | null => true | _ => false
  | bool b, v => v.isWhole (if b then 1 else 0)
  | integer n, v => v.isWhole n
  | real x, v =>
    match v with
    | bool b => x.isWhole (if b then 1 else 0)
    | integer n => x.isWhole n
    | real y => x.same y
    | _ => false
  | text s, v => match v with | text t => s = t | _ => false
  | list xs, v => match v with | list ys => sameItems xs ys | _ => false
  | record fs, v =>
    match v with
    | record gs => fs.length = gs.length && sameFields fs gs
    | _ => false

def sameItems : List Value → List Value → Bool
  | [], [] => true
  | v :: vs, w :: ws => (same v w || v.isNaN && w.isNaN) && sameItems vs ws
  | _, _ => false

def sameFields : List (Text × Value) → List (Text × Value) → Bool
  | [], _ => true
  | (name, v) :: fs, gs =>
    (match field? gs name with
      | some w => same v w || v.isNaN && w.isNaN
      | none => false) && sameFields fs gs

end

theorem same_text (s t : Text) : same (text s) (text t) = decide (s = t) := rfl

example : same (bool true) (integer 1) = true := by decide

end Value

end SignalPool
