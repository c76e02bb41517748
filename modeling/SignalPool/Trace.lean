import SignalPool.Key
import SignalPool.Signature
import SignalPool.Warning

namespace SignalPool

inductive Request where
  | account (address : Key)
  | supply (mint : Key)
  | balance (holder : Key)
  | programAccounts (program : Key)
  | signatures (address : Key) (limit : Int)
  | transaction (s : Signature)
  deriving DecidableEq

namespace Request

def text : Request → String
  | account address => "account:" ++ address.text
  | supply mint => "supply:" ++ mint.text
  | balance holder => "balance:" ++ holder.text
  | programAccounts program => "program_accounts:" ++ program.text ++ ":base64"
  | signatures address limit => "signatures:" ++ address.text ++ s!":{limit}"
  | transaction s => "transaction:" ++ s.text ++ ":base64:0"

end Request

/-- A value together with what was asked of the node and what was reported on the way to it. -/
structure Trace (α : Type) where
  value : α
  requests : List Request
  warnings : List Warning

namespace Trace

variable {α β : Type}

protected def pure (a : α) : Trace α := ⟨a, [], []⟩

protected def bind (t : Trace α) (f : α → Trace β) : Trace β :=
  ⟨(f t.value).value, t.requests ++ (f t.value).requests, t.warnings ++ (f t.value).warnings⟩

instance : Monad Trace where
  pure := Trace.pure
  bind := Trace.bind

@[simp] theorem value_pure (a : α) : (pure a : Trace α).value = a := rfl

@[simp] theorem requests_pure (a : α) : (pure a : Trace α).requests = [] := rfl

@[simp] theorem warnings_pure (a : α) : (pure a : Trace α).warnings = [] := rfl

@[simp] theorem value_bind (t : Trace α) (f : α → Trace β) :
    (t >>= f).value = (f t.value).value := rfl

@[simp] theorem requests_bind (t : Trace α) (f : α → Trace β) :
    (t >>= f).requests = t.requests ++ (f t.value).requests := rfl

@[simp] theorem warnings_bind (t : Trace α) (f : α → Trace β) :
    (t >>= f).warnings = t.warnings ++ (f t.value).warnings := rfl

@[simp] theorem value_map (f : α → β) (t : Trace α) : (f <$> t).value = f t.value := rfl

@[simp] theorem requests_map (f : α → β) (t : Trace α) : (f <$> t).requests = t.requests :=
  List.append_nil t.requests

@[simp] theorem warnings_map (f : α → β) (t : Trace α) : (f <$> t).warnings = t.warnings :=
  List.append_nil t.warnings

def ask (r : Request) (answer : α) : Trace α := ⟨answer, [r], []⟩

def warn (ws : List Warning) : Trace Unit := ⟨(), [], ws⟩

theorem bind_pure (t : Trace α) : Trace.bind t Trace.pure = t := by
  simp [Trace.bind, Trace.pure]

theorem bind_assoc {γ : Type} (t : Trace α) (f : α → Trace β) (g : β → Trace γ) :
    Trace.bind (Trace.bind t f) g = Trace.bind t (fun a => Trace.bind (f a) g) := by
  simp [Trace.bind, List.append_assoc]

theorem pure_bind (a : α) (f : α → Trace β) : Trace.bind (Trace.pure a) f = f a := by
  simp [Trace.bind, Trace.pure]

instance : LawfulMonad Trace := LawfulMonad.mk' Trace bind_pure pure_bind bind_assoc

end Trace

end SignalPool
