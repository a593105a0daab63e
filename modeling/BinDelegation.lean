import BinDelegation.Main
import BinDelegation.Proofs.Chronology
import BinDelegation.Proofs.CommandLine.Build
import BinDelegation.Proofs.CommandLine.KeyGeneration
import BinDelegation.Proofs.Delegation.Batches
import BinDelegation.Proofs.Delegation.Checking
import BinDelegation.Proofs.Delegation.Freshness
import BinDelegation.Proofs.Delegation.Progress
import BinDelegation.Proofs.Delegation.Roles
import BinDelegation.Proofs.Document.CanonicalOrder
import BinDelegation.Proofs.Document.CanonicalText
import BinDelegation.Proofs.Partition.LeadingBits
import BinDelegation.Proofs.Partition.Ranges
import BinDelegation.Proofs.Partition.Walk
import BinDelegation.Proofs.SpecVersion
import BinDelegation.Proofs.Store.Concurrent
import BinDelegation.Proofs.Store.Room
