import LightningDB.Framework.ByteCodec
import LightningDB.Framework.Chain
import LightningDB.Framework.Fallible
import LightningDB.Framework.FileBytes
import LightningDB.Framework.FileSystem
import LightningDB.Framework.FinMap
import LightningDB.Framework.Interleaving
import LightningDB.Framework.Json
import LightningDB.Framework.Peg
import LightningDB.Framework.RateLimit
import LightningDB.Framework.Runs
import LightningDB.Storage.Disk
import LightningDB.Storage.FreeSpace
import LightningDB.Storage.Header
import LightningDB.Storage.Overflow
import LightningDB.Storage.Page
import LightningDB.Storage.RowVersion
import LightningDB.Storage.Value
import LightningDB.Storage.VisibilityMask
import LightningDB.Storage.WriteBuffer
import LightningDB.Wal.Attributed
import LightningDB.Wal.Cursor
import LightningDB.Wal.Log
import LightningDB.Wal.Record
import LightningDB.Wal.RecordIter
import LightningDB.Wal.Replay
import LightningDB.Wal.RoundTrip
import LightningDB.Wal.Upgrade
import LightningDB.Transaction.FirstCommitter
import LightningDB.Transaction.Horizon
import LightningDB.Transaction.Manager
import LightningDB.Transaction.Restarts
import LightningDB.Transaction.RowIds
import LightningDB.Transaction.RowLocks
import LightningDB.Transaction.Watermark
import LightningDB.BufferPool.Manager
import LightningDB.BufferPool.Pool
import LightningDB.BufferPool.Reclaim
import LightningDB.BufferPool.Residents
import LightningDB.BufferPool.Scans
import LightningDB.Engine.Attribution
import LightningDB.Engine.Invariant
import LightningDB.Engine.Model
import LightningDB.Engine.Moves
import LightningDB.Engine.Sound
import LightningDB.Engine.UncommittedBytes
import LightningDB.Recovery.Completeness
import LightningDB.Recovery.Open
import LightningDB.Ddl.RowVersions
import LightningDB.Ddl.Storage
import LightningDB.Index.Csr
import LightningDB.Index.HashIndex
import LightningDB.Index.HashPage
import LightningDB.Index.HashVersions
import LightningDB.Parser.Distinct
import LightningDB.Parser.Grammar
import LightningDB.Parser.Literals
import LightningDB.Parser.Preprocess
import LightningDB.Parser.Statements
import LightningDB.Query.AllShortestPaths
import LightningDB.Query.BulkInsert
import LightningDB.Query.Connection
import LightningDB.Query.Copy
import LightningDB.Query.CopyRows
import LightningDB.Query.Export
import LightningDB.Query.Operators
import LightningDB.Query.PlanCaches
import LightningDB.Query.RecursiveJoin
import LightningDB.Query.Rows
import LightningDB.Query.Scheduler
import LightningDB.Query.Statements
import LightningDB.Query.Store
import LightningDB.Query.Union
import LightningDB.Query.With
import LightningDB.Server.Admins
import LightningDB.Server.AuthStore
import LightningDB.Server.ConnectionPool
import LightningDB.Server.Credentials
import LightningDB.Server.LiveCredentials
import LightningDB.Server.Lockout
import LightningDB.Server.Revocation
import LightningDB.Server.Rotation
import LightningDB.Server.UserStore
