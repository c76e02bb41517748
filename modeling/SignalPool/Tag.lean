namespace SignalPool

inductive Tag where
  | init | create | deposit | createOrder | cancelOrder | settleFunds | redeem | collectFees
  deriving DecidableEq, Repr

namespace Tag

def code : Tag → UInt8
  | init => 0
  | create => 1
  | deposit => 2
  | createOrder => 3
  | cancelOrder => 4
  | settleFunds => 5
  | redeem => 6
  | collectFees => 7

def all : List Tag :=
  [init, create, deposit, createOrder, cancelOrder, settleFunds, redeem, collectFees]

def ofCode? (b : UInt8) : Option Tag := all.find? (fun t => t.code = b)

@[simp] theorem ofCode?_code (t : Tag) : ofCode? t.code = some t := by
  cases t <;> decide

theorem code_of_ofCode? {b : UInt8} {t : Tag} (h : ofCode? b = some t) : t.code = b := by
  simpa using List.find?_some h

theorem code_inj {s t : Tag} (h : s.code = t.code) : s = t := by
  have hs := ofCode?_code s
  rw [h, ofCode?_code] at hs
  exact (Option.some.inj hs).symm

def name : Tag → String
  | init => "INIT"
  | create => "CREATE"
  | deposit => "DEPOSIT"
  | createOrder => "CREATE_ORDER"
  | cancelOrder => "CANCEL_ORDER"
  | settleFunds => "SETTLE_FUNDS"
  | redeem => "REDEEM"
  | collectFees => "COLLECT_FEES"

/-- Fewest bytes of data: the tag, the pool seed and the fields of fixed size. -/
def minSize : Tag → Nat
  | init => 39
  | create => 45
  | deposit => 41
  | createOrder => 122
  | cancelOrder => 50
  | settleFunds => 49
  | redeem => 41
  | collectFees => 33

end Tag

end SignalPool
