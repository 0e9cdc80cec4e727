import UidGenerator.Lib.BitField
import UidGenerator.Lib.Run
import UidGenerator.Lib.RingQueue
import UidGenerator.Lib.Batches
import UidGenerator.Lib.Async
import UidGenerator.Spec.Basic
import UidGenerator.Spec.BitsAllocator
import UidGenerator.Spec.DefaultUidGenerator
import UidGenerator.Spec.Lifecycle
import UidGenerator.Spec.MysqlSqlSession
import UidGenerator.Spec.RingBuffer
import UidGenerator.Proofs.Long
import UidGenerator.Proofs.Layout
import UidGenerator.Proofs.Calls
import UidGenerator.Proofs.Serial
import UidGenerator.Proofs.Lifecycle
import UidGenerator.Proofs.Parsed
import UidGenerator.Proofs.RingBuffer
import UidGenerator.Proofs.Interleaving
import UidGenerator.Spec.BufferPaddingExecutor
import UidGenerator.Spec.Reentrancy
import UidGenerator.Proofs.Steps
import UidGenerator.Proofs.Padding
import UidGenerator.Proofs.FailedTakes
import UidGenerator.Proofs.Capacity
import UidGenerator.Spec.CachedUidGenerator
import UidGenerator.Proofs.Batch
import UidGenerator.Proofs.Cached
import UidGenerator.Proofs.Uniqueness
import UidGenerator.Proofs.Workers
import UidGenerator.Proofs.InTime
import UidGenerator.Proofs.Reentrancy
import UidGenerator.Proofs.Simulation
import UidGenerator.Proofs.ExactPass
import UidGenerator.Proofs.EmptyTakes
import UidGenerator.Proofs.Reserve
import UidGenerator.Proofs.Stream
import UidGenerator.Proofs.Phases
import UidGenerator.Proofs.UnitsOfWork
import UidGenerator.Lib.Words
import UidGenerator.Proofs.Widths
import UidGenerator.Proofs.BufferSize
import UidGenerator.Spec.Strings
import UidGenerator.Spec.DockerUtils
import UidGenerator.Spec.Cluster
import UidGenerator.Proofs.DockerUtils
import UidGenerator.Proofs.Assignment
import UidGenerator.Proofs.Cluster
import UidGenerator.Proofs.ClusterUids
import UidGenerator.Proofs.Shutdown
import UidGenerator.Proofs.JavaDate
import UidGenerator.Proofs.DayPattern
import UidGenerator.Lib.Json
import UidGenerator.Spec.ParseUid
import UidGenerator.Proofs.Strings
import UidGenerator.Proofs.ParseUid
import UidGenerator.Lib.OrderedMap
import UidGenerator.Spec.Properties
import UidGenerator.Proofs.Properties
import UidGenerator.Proofs.PropertyLine
import UidGenerator.Proofs.Continuations
import UidGenerator.Lib.EventLoop
import UidGenerator.Spec.SqliteSqlSession
import UidGenerator.Proofs.SqliteSqlSession
import UidGenerator.Proofs.SqliteCalls
import UidGenerator.Proofs.SqliteUnits
import UidGenerator.Proofs.Drain
import UidGenerator.Proofs.Lookahead
import UidGenerator.Proofs.Drift
import UidGenerator.Proofs.Agreement
import UidGenerator.Proofs.DateText
import UidGenerator.Proofs.StoredProperties
import UidGenerator.Spec.Datasource
import UidGenerator.Proofs.Datasource
import UidGenerator.Proofs.Availability
import UidGenerator.Proofs.ClusterOrder
import UidGenerator.Spec.Executors
import UidGenerator.Proofs.Executors
