import SignalPool.Fetched
import SignalPool.Signature

namespace SignalPool

structure RawAmount where
  amount : Text
  decimals : Int

structure SignatureInfo where
  signature : Text
  slot : Int
  deriving DecidableEq

/-- A node: its answers to questions about the ledger. Only transactions can fail to come. -/
structure Node where
  account : Key → Option Bytes
  supply : Key → RawAmount
  balance : Key → RawAmount
  programAccounts : Key → List (Key × Bytes)
  signatures : Key → Int → List SignatureInfo
  transaction : Signature → Except Text (Option Fetched)

structure Snapshot where
  accounts : Table Key Bytes
  supply : RawAmount
  balances : Table Key RawAmount
  history : List SignatureInfo
  transactions : Table Text (Option Fetched)
  failures : Table Text Text

namespace Snapshot

def setAccount (s : Snapshot) (address : Key) : Option Bytes → Snapshot
  | some data => { s with accounts := s.accounts.insert address data }
  | none => { s with accounts := s.accounts.erase address }

/-- The first entries of a history; a negative limit leaves as many out at its end. -/
def newest (history : List SignatureInfo) (limit : Int) : List SignatureInfo :=
  if 0 ≤ limit then history.take limit.toNat else history.take (history.length - limit.natAbs)

def node (s : Snapshot) : Node where
  account := s.accounts.get?
  supply _ := s.supply
  balance holder := (s.balances.get? holder).getD ⟨"0", 0⟩
  programAccounts _ := s.accounts
  signatures _ limit := newest s.history limit
  transaction signature :=
    match s.failures.get? signature.text with
    | some reason => .error reason
    | none => .ok ((s.transactions.get? signature.text).getD none)

end Snapshot

end SignalPool
