import Liters.Foundation.Bytes
import Liters.Foundation.SortedMap
import Liters.Foundation.Result
import Liters.Foundation.PageImage
import Liters.Ltx.Types
import Liters.Ltx.Txid
import Liters.Foundation.Digits
import Liters.Ltx.Filename
import Liters.Ltx.Lz4f
import Liters.Ltx.LiteralCodec
import Liters.Ltx.PageIndex
import Liters.Ltx.Encoder
import Liters.Ltx.Decoder
import Liters.Ltx.RoundTrip
import Liters.Ltx.Snapshot
import Liters.Ltx.Compactor
import Liters.Ltx.Merge
import Liters.Ltx.File
import Liters.Ltx.Compaction
import Liters.Ltx.Meaning
import Liters.Restore.Plan
import Liters.Foundation.History
import Liters.Foundation.Script
import Liters.Foundation.Effects
import Liters.Restore.PlanCorrect
import Liters.Maintenance.Bucket
import Liters.Maintenance.Operations
import Liters.Maintenance.Invariant
import Liters.Maintenance.Safety
import Liters.Maintenance.Restorable
import Liters.Maintenance.Calls
import Liters.Maintenance.Levels
import Liters.Maintenance.Images
import Liters.Maintenance.Tiled
import Liters.Maintenance.Contiguous
import Liters.Writer.Lineage
import Liters.Writer.SoleWriter
import Liters.Writer.SharedBucket
import Liters.Http.Mount
import Liters.Http.Lease
import Liters.Http.Fence
import Liters.Http.Stream
import Liters.Foundation.Text
import Liters.Foundation.Reader
import Liters.Http.Wire
import Liters.Http.Chunked
import Liters.Http.Client
import Liters.Foundation.ByteFile
import Liters.Replica.FullRestore
import Liters.Foundation.Overlay
import Liters.Replica.Sync
import Liters.Replica.InPlace
import Liters.Replica.Round
import Liters.Replica.Progress
import Liters.Replica.Agreement
import Liters.Replica.CatchUp
import Liters.Replica.Interrupted
import Liters.Replica.Reseed
import Liters.Replica.Follow
import Liters.Replica.FollowPace
import Liters.Replica.FollowSound
import Liters.Http.Server
import Liters.Http.Listing
import Liters.Http.Reads
import Liters.Foundation.CommitLog
import Liters.Wal.Reader
import Liters.Wal.Committed
import Liters.Wal.Resume
import Liters.Wal.Poll
import Liters.Wal.State
import Liters.Wal.Rewrite
import Liters.Writer.Verify
import Liters.Writer.LocalSync
import Liters.Writer.SnapshotLevel
import Liters.Writer.SnapshotWhole
import Liters.Writer.LiveDb
import Liters.Writer.Reopened
import Liters.Writer.CaughtUp
import Liters.Writer.Session
import Liters.System.Shipping
import Liters.System.EndToEnd
import Liters.System.LiveFollow
import Liters.Foundation.Steps
import Liters.Http.Notify
import Liters.Manager.Registry
import Liters.Manager.Events
import Liters.Foundation.Checked
import Liters.Wal.CheckedReader
import Liters.Writer.Baseline
import Liters.Foundation.SideBySide
import Liters.Http.InOrder
import Liters.System.Owner
import Liters.System.OwnerUploads
import Liters.System.NeverFenced
