import TransactionalMemory.Word.Text
import TransactionalMemory.Workload
import TransactionalMemory.Proofs.Modifications
import TransactionalMemory.Proofs.PartialCommits
import TransactionalMemory.Proofs.NestedBlocks
import TransactionalMemory.Proofs.Traversals
import TransactionalMemory.Proofs.Independence
import TransactionalMemory.Proofs.Causes
import TransactionalMemory.Proofs.ProperUse
import TransactionalMemory.Proofs.LastWrites
import TransactionalMemory.Proofs.Statistics
import TransactionalMemory.Proofs.ReadOnlyBlocks
import TransactionalMemory.Proofs.Extensions
import TransactionalMemory.Proofs.Validation
import TransactionalMemory.Proofs.ToldConflicts
import TransactionalMemory.Proofs.Unwinding
import TransactionalMemory.Proofs.TypedReads
import TransactionalMemory.Proofs.ReadLoops
