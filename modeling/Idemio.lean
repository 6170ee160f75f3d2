import Idemio.Base.Run
import Idemio.Base.Locks
import Idemio.Base.Waiting
import Idemio.Base.Interleave
import Idemio.Base.Backlog
import Idemio.Base.Utf8
import Idemio.Base.Json
import Idemio.Base.Uuid
import Idemio.Base.Base64
import Idemio.Base.Calendar
import Idemio.Base.Timestamp
import Idemio.Base.Keyset
import Idemio.Base.Segments
import Idemio.Base.Binary64
import Idemio.Base.RingBuffer
import Idemio.Base.Sql
import Idemio.Base.Ranges
import Idemio.Base.GoText
import Idemio.Base.JsonMeaning
import Idemio.Base.JsonText
import Idemio.Base.JsonCompact
import Idemio.Base.JsonWrite
import Idemio.Downstream
import Idemio.Probe
import Idemio.Manifest
import Idemio.Config
import Idemio.Properties.LiveIntents
import Idemio.Properties.Exclusion
import Idemio.Properties.Rejection
import Idemio.Properties.Naming
import Idemio.Properties.Serialization
import Idemio.Properties.Finality
import Idemio.Properties.Fencing
import Idemio.Properties.AtMostOnce
import Idemio.Properties.Unavailable
import Idemio.Properties.Binding
import Idemio.Properties.Replay
import Idemio.Properties.Progress
import Idemio.Properties.Retention
import Idemio.Properties.Orphans
import Idemio.Maintenance.Pass
import Idemio.Maintenance.Retirement
import Idemio.Maintenance.Recovery
import Idemio.Outbox
import Idemio.Properties.Publication
import Idemio.Properties.History
import Idemio.Properties.Lifetime
import Idemio.Properties.Activation
import Idemio.Migrate
import Idemio.Identity
import Idemio.Properties.Probing
import Idemio.Api.Read
import Idemio.Properties.Isolation
import Idemio.Properties.Polling
import Idemio.Api.Reads
import Idemio.Properties.Redaction
import Idemio.Properties.Audit
import Idemio.Properties.Paging
import Idemio.Properties.Scopes
import Idemio.Properties.Wholeness
import Idemio.Latency
import Idemio.Canonical
import Idemio.Properties.Hashing
import Idemio.Properties.ClaimEffect
import Idemio.Maintenance.Archive
import Idemio.Properties.Restoration
import Idemio.Maintenance.Partitions
import Idemio.Properties.Coverage
import Idemio.Config.Load
import Idemio.Window
import Idemio.Properties.Deadlock
import Idemio.Properties.Attempts
import Idemio.Properties.Success
import Idemio.Properties.References
import Idemio.Properties.ConflictLog
import Idemio.Properties.Recovery
import Idemio.Properties.Register
import Idemio.Properties.Headroom
import Idemio.Properties.Relaying
import Idemio.Maintenance.Expiry
