import SignalPool.Hex.Buffer
import SignalPool.Instruction.Named
import SignalPool.Reconstruction
import SignalPool.Value.Json
import SignalPool.Proofs.Causality
import SignalPool.Proofs.Grammar
import SignalPool.Proofs.Recency
import SignalPool.Proofs.Recognition
import SignalPool.Proofs.Restatement
import SignalPool.Proofs.Conservation
import SignalPool.Proofs.Growth
import SignalPool.Proofs.PartialHistory
import SignalPool.Proofs.Provenance
import SignalPool.Proofs.Alternation
import SignalPool.Proofs.Containment
import SignalPool.Proofs.PoolCalls
import SignalPool.Proofs.Truncation
import SignalPool.Proofs.Chronology
import SignalPool.Proofs.Paging
import SignalPool.Proofs.Interleaving
import SignalPool.Proofs.Isolation
import SignalPool.Proofs.Placement
import SignalPool.Proofs.Proceeds
import SignalPool.Proofs.SettleCall
import SignalPool.Proofs.CanonicalHeader
import SignalPool.Proofs.Authorization
import SignalPool.Proofs.Lookups
import SignalPool.Proofs.PoolScan
import SignalPool.Proofs.FirstOverflow
import SignalPool.Proofs.HumanUnits
import SignalPool.Proofs.VaultSigner
import SignalPool.Proofs.PercentageRange
