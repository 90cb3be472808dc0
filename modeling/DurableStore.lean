import DurableStore.Main
import DurableStore.Proofs.Command.LateReplay
import DurableStore.Proofs.Command.Refusal
import DurableStore.Proofs.Config.Spellings
import DurableStore.Proofs.Engine.Durability
import DurableStore.Proofs.Engine.EvictionLog
import DurableStore.Proofs.Engine.Loading
import DurableStore.Proofs.Engine.Reopening
import DurableStore.Proofs.Engine.Repair
import DurableStore.Proofs.Engine.Saving
import DurableStore.Proofs.Engine.Seeding
import DurableStore.Proofs.Engine.Selection
import DurableStore.Proofs.Journal.Boundaries
import DurableStore.Proofs.Journal.Interruption
import DurableStore.Proofs.Journal.LateRebuild
import DurableStore.Proofs.Journal.Order
import DurableStore.Proofs.Keyspace.Expiry
import DurableStore.Proofs.Keyspace.Memory
import DurableStore.Proofs.Keyspace.Recency
import DurableStore.Proofs.Keyspace.Rounds
import DurableStore.Proofs.Replication.Convergence
import DurableStore.Proofs.Replication.Order
import DurableStore.Proofs.Replication.Registry
import DurableStore.Proofs.Replication.Strays
import DurableStore.Proofs.Snapshot.Accounting
import DurableStore.Proofs.Snapshot.Compression
import DurableStore.Proofs.Snapshot.Layouts
import DurableStore.Proofs.Snapshot.Truncation
import DurableStore.Proofs.Snapshot.Wholeness
import DurableStore.Proofs.Value.SortedSet
