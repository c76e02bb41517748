import SignalPool.Identity
import SignalPool.Text.Numeral

namespace SignalPool

structure Config where
  poolProgram : Key
  venueProgram : Key
  tokenProgram : Key
  associatedTokenProgram : Key
  feeReceiver : Key
  buyAndBurn : Key
  nodeUrl : Text
  maxConcurrency : Int
  signatureLimit : Int
  deriving DecidableEq

namespace Config

inductive Fault where
  | concurrency (n : Int)
  | signatureLimit (n : Int)
  | cluster (name : Text)
  | key (f : Key.TextFault)
  | number (f : Text.Numeral.Fault)
  deriving DecidableEq, Repr

namespace Fault

/-- What is said about a limit that is too low, unless it has too many digits to be written. -/
def belowOne (limit : String) (n : Int) : String :=
  if Text.Numeral.isWritable n then s!"{limit} must be at least 1, got {n}"
  else Text.Numeral.unwritable

def message : Fault → Text
  | concurrency n => belowOne "max_concurrency" n
  | signatureLimit n => belowOne "signature_limit" n
  | cluster name => "Unknown cluster: " ++ name
  | key f => f.message
  | number f => f.message

end Fault

def clusters : List (Text × Text) :=
  [("mainnet", "https://solana-api.projectserum.com"),
    ("mainnet2", "https://api.mainnet-beta.solana.com"),
    ("devnet", "https://api.devnet.solana.com")]

def standard : Config where
  poolProgram := Identity.poolProgram
  venueProgram := Identity.venueProgram
  tokenProgram := Identity.tokenProgram
  associatedTokenProgram := Identity.associatedTokenProgram
  feeReceiver := Identity.feeReceiver
  buyAndBurn := Identity.buyAndBurn
  nodeUrl := "https://solana-api.projectserum.com"
  maxConcurrency := 8
  signatureLimit := 1000

def Valid (c : Config) : Prop := 1 ≤ c.maxConcurrency ∧ 1 ≤ c.signatureLimit

theorem valid_standard : standard.Valid := ⟨by decide, by decide⟩

/-- Both limits must be positive; the concurrency is looked at first. -/
def check (c : Config) : Except Fault Config :=
  if c.maxConcurrency < 1 then .error (.concurrency c.maxConcurrency)
  else if c.signatureLimit < 1 then .error (.signatureLimit c.signatureLimit)
  else .ok c

theorem check_eq_ok_iff {c d : Config} : c.check = .ok d ↔ c.Valid ∧ d = c := by
  unfold check Valid
  by_cases hm : c.maxConcurrency < 1
  · have hv : ¬(1 ≤ c.maxConcurrency ∧ 1 ≤ c.signatureLimit) := by omega
    simp [hm, hv]
  · by_cases hs : c.signatureLimit < 1
    · have hv : ¬(1 ≤ c.maxConcurrency ∧ 1 ≤ c.signatureLimit) := by omega
      simp [hm, hs, hv]
    · have hv : 1 ≤ c.maxConcurrency ∧ 1 ≤ c.signatureLimit := by omega
      simp [hm, hs, hv, eq_comm]

def forCluster (name : Text) : Except Fault Config :=
  match clusters.lookup name with
  | some url => .ok { standard with nodeUrl := url }
  | none => .error (.cluster name)

def setting? (environment : String → Option Text) (name : String) : Option Text :=
  (environment ("BONFIDA_BOT_" ++ name)).filter (· ≠ Text.empty)

def keyOr (environment : String → Option Text) (name : String) (standard : Key) :
    Except Fault Key :=
  match setting? environment name with
  | some text => (Key.parse text).mapError .key
  | none => .ok standard

def numberOr (environment : String → Option Text) (name : String) (standard : Int) :
    Except Fault Int :=
  match setting? environment name with
  | some text => (Text.Numeral.parse text).mapError .number
  | none => .ok standard

/-- Reads the keys, then the numbers, and checks the limits at the end. -/
def fromEnvironment (environment : String → Option Text) : Except Fault Config := do
  let poolProgram ← keyOr environment "PROGRAM_ID" standard.poolProgram
  let venueProgram ← keyOr environment "DEX_PROGRAM_ID" standard.venueProgram
  let tokenProgram ← keyOr environment "TOKEN_PROGRAM_ID" standard.tokenProgram
  let associatedTokenProgram ←
    keyOr environment "ASSOCIATED_TOKEN_PROGRAM_ID" standard.associatedTokenProgram
  let feeReceiver ← keyOr environment "FEE_RECEIVER" standard.feeReceiver
  let buyAndBurn ← keyOr environment "BUY_AND_BURN" standard.buyAndBurn
  let nodeUrl := (setting? environment "RPC_URL").getD standard.nodeUrl
  let maxConcurrency ← numberOr environment "MAX_CONCURRENCY" standard.maxConcurrency
  let signatureLimit ← numberOr environment "SIGNATURE_LIMIT" standard.signatureLimit
  check { poolProgram, venueProgram, tokenProgram, associatedTokenProgram, feeReceiver, buyAndBurn,
          nodeUrl, maxConcurrency, signatureLimit }

inductive Change where
  | poolProgram (k : Key)
  | venueProgram (k : Key)
  | nodeUrl (url : Text)
  | maxConcurrency (n : Int)
  | signatureLimit (n : Int)

def change (c : Config) : Change → Except Fault Config
  | .poolProgram k => .ok { c with poolProgram := k }
  | .venueProgram k => .ok { c with venueProgram := k }
  | .nodeUrl url => .ok { c with nodeUrl := url }
  | .maxConcurrency n =>
    if n < 1 then .error (.concurrency n) else .ok { c with maxConcurrency := n }
  | .signatureLimit n =>
    if n < 1 then .error (.signatureLimit n) else .ok { c with signatureLimit := n }

theorem valid_of_change {c d : Config} {ch : Change} (hc : c.Valid) (h : c.change ch = .ok d) :
    d.Valid := by
  cases ch <;> simp only [change] at h
  case maxConcurrency n =>
    split at h
    · simp at h
    · obtain rfl := Except.ok.inj h
      exact ⟨by simp only; omega, hc.2⟩
  case signatureLimit n =>
    split at h
    · simp at h
    · obtain rfl := Except.ok.inj h
      exact ⟨hc.1, by simp only; omega⟩
  all_goals
    obtain rfl := Except.ok.inj h
    exact hc

end Config

end SignalPool
