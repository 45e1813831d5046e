import Rocc.Base.Run
import Rocc.Base.Replay
import Rocc.Base.Batch
import Rocc.Occ.Model
import Rocc.Occ.Invariant
import Rocc.Occ.Steps
import Rocc.Occ.Serializability
import Rocc.Base.Ledger
import Rocc.Locking.Model
import Rocc.Locking.Invariant
import Rocc.Locking.Steps
import Rocc.Locking.Safety
import Rocc.Locking.Serializability
import Rocc.Locking.WaitGraph
import Rocc.Locking.Grants
import Rocc.Base.Window
import Rocc.Mvcc.Header
import Rocc.Mvcc.Model
import Rocc.Mvcc.Invariant
import Rocc.Mvcc.Serializability
import Rocc.Sundial.Node
import Rocc.Sundial.Rpc.Model
import Rocc.Sundial.Rpc.Invariant
import Rocc.Sundial.Rpc.Steps
import Rocc.Sundial.Rpc.Serializability
import Rocc.Sundial.Rpc.Release
import Rocc.Sundial.OneSided.Model
import Rocc.Sundial.OneSided.Invariant
import Rocc.Sundial.OneSided.Steps
import Rocc.Sundial.OneSided.Timestamps
import Rocc.Sundial.OneSided.Release
import Rocc.Sundial.Release
import Rocc.Base.TicketLock
import Rocc.Dslr.Model
import Rocc.Dslr.Exclusion
import Rocc.Dslr.Tickets
import Rocc.Mvcc.OneSided.Commit
import Rocc.Mvcc.OneSided.Model
import Rocc.Mvcc.OneSided.Steps
import Rocc.Mvcc.OneSided.Snapshot
import Rocc.Base.Memory
import Rocc.Occ.WriteBack
import Rocc.Memstore.ClusterHash
import Rocc.Memstore.RHash
import Rocc.Base.Deferred
import Rocc.Locking.OneSided.Model
import Rocc.Locking.OneSided.Invariant
import Rocc.Locking.OneSided.Steps
import Rocc.Locking.OneSided.Safety
import Rocc.Occ.OneSided.Model
import Rocc.Occ.OneSided.Simulation
import Rocc.Occ.OneSided.Steps
import Rocc.Occ.OneSided.Serializability
import Rocc.Occ.Hybrid.Model
import Rocc.Occ.Hybrid.Invariant
import Rocc.Occ.Hybrid.Steps
import Rocc.Occ.Hybrid.Abort
import Rocc.Mvcc.Eviction
import Rocc.Mvcc.Reply
import Rocc.Base.Ring
import Rocc.Core.Routine
import Rocc.Db.TsManager
import Rocc.Mvcc.CatchUp
import Rocc.Core.Wakeup
import Rocc.Rtx.Replication
import Rocc.Base.Holding
import Rocc.Db.TxHandler
import Rocc.Db.Ownership
import Rocc.Db.Steps
import Rocc.Base.History
import Rocc.Db.Si
import Rocc.Db.Rad.Model
import Rocc.Db.Rad.Snapshot
import Rocc.Base.Schedule
import Rocc.Db.Farm.Model
import Rocc.Db.Farm.Invariant
import Rocc.Db.Farm.Locks
import Rocc.Db.Farm.Steps
import Rocc.Db.Farm.End
import Rocc.Db.Farm.Commit
import Rocc.Db.Farm.Serializability
import Rocc.Rtx.StartTime
import Rocc.Base.Chain
import Rocc.Locking.Ages
import Rocc.Locking.WaitList
import Rocc.Base.Layout
import Rocc.Rtx.Batch
import Rocc.Occ.BatchRead
import Rocc.Occ.Solo
import Rocc.Locking.LocalPath
import Rocc.Sundial.Solo
import Rocc.Sundial.Clock
import Rocc.Mvcc.Hybrid.Model
import Rocc.Mvcc.Hybrid.Release
import Rocc.Locking.Hybrid.Model
import Rocc.Locking.Hybrid.Invariant
import Rocc.Locking.Hybrid.Steps
import Rocc.Locking.Hybrid.Release
import Rocc.Base.Grid
import Rocc.Rtx.TwoPhaseCommit
import Rocc.Rtx.LogMem
import Rocc.Rtx.LogRing
import Rocc.Rtx.RpcLog
import Rocc.Base.Cells
import Rocc.Base.Rotation
import Rocc.Rtx.SymmetricView
import Rocc.Framework.View
import Rocc.Core.SingleQueue
import Rocc.Rtx.RecordRead
import Rocc.Sundial.Reply
import Rocc.Occ.Oneshot
import Rocc.Occ.Placeholder
import Rocc.Base.Slots
import Rocc.Memstore.BPlusTree.Model
import Rocc.Base.Fences
import Rocc.Memstore.BPlusTree.Leaf
import Rocc.Memstore.BPlusTree.Shape
import Rocc.Memstore.BPlusTree.Insert
import Rocc.Memstore.BPlusTree.Invariant
import Rocc.Memstore.BPlusTree.Bounds
import Rocc.Memstore.BPlusTree.Iterator
import Rocc.Memstore.MemstoreBPlusTree
import Rocc.Memstore.MemstoreBPlusTree.Scan
import Rocc.Rtx.OccIterator
import Rocc.Base.Ready
import Rocc.Memstore.BPlusTree.Delete
import Rocc.Memstore.BPlusTree.Removal
import Rocc.Memstore.MemstoreUint64BPlusTree
import Rocc.Memstore.MemstoreUint64BPlusTree.Seek
import Rocc.Memstore.SeekPrev
import Rocc.Base.Clusters
import Rocc.Memstore.ClusterHash.Model
import Rocc.Memstore.ClusterHash.Insert
import Rocc.Memstore.ClusterHash.Map
import Rocc.Memstore.ClusterHash.Capacity
import Rocc.Memstore.RdmaHashExt.Model
import Rocc.Memstore.RdmaHashExt.Insert
import Rocc.Memstore.RdmaHashExt.Map
import Rocc.Base.Shift
import Rocc.Memstore.RdmaCuckooHash.Model
import Rocc.Memstore.RdmaCuckooHash.Keys
import Rocc.Base.Digits
import Rocc.Tpcc.Keys
import Rocc.Base.Lex
import Rocc.Tpcc.CustomerIndex
import Rocc.Db.Farm.CommitMessage
import Rocc.Db.RemoteSet
import Rocc.Db.WriteBack
import Rocc.Db.Phases
import Rocc.Memstore.RdmaChainHash.Model
import Rocc.Memstore.RdmaChainHash.Insert
import Rocc.Memstore.RdmaChainHash.Map
import Rocc.Db.DbLogger.TempLog
import Rocc.Db.DbLogger.Image
import Rocc.Db.DbLogger.Replay
import Rocc.Db.DbLogger.Ring
import Rocc.Db.DbLogger.RingRuns
import Rocc.Base.Latest
import Rocc.Db.Backup.Model
import Rocc.Db.Backup.Runs
import Rocc.Db.Backup.Drain
import Rocc.Db.Backup.Cell
import Rocc.Bank.LogCleaner
import Rocc.Tpcc.Tables
import Rocc.Tpcc.LogCleaner
import Rocc.Base.Program
import Rocc.Occ.RealTime
import Rocc.Occ.Programs
import Rocc.Tpcc.NewOrder.Items
import Rocc.Tpcc.NewOrder.Program
import Rocc.Tpcc.NewOrder.Runs
import Rocc.Bank.Transactions
import Rocc.Bank.Runs
import Rocc.Mvcc.Programs
import Rocc.Occ.Counting
