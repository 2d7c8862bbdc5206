import Walrust.Compaction.Cascade
import Walrust.Compaction.Streaming
import Walrust.Compaction.Cover
import Walrust.Compaction.Window
import Walrust.Compaction.Idle
import Walrust.Legacy.Names
import Walrust.Legacy.Planning
import Walrust.Legacy.Prune
import Walrust.Legacy.ReplicaChain
import Walrust.Restore.PointInTime
import Walrust.Sync.Publishable
import Walrust.Sync.Accessors
import Walrust.Sync.Contention
import Walrust.Sync.Download
import Walrust.Wal.Race
import Walrust.Watch.Reanchor
import Walrust.Watch.Cursor
import Walrust.Watch.Gate
import Walrust.Watch.Checksums
import Walrust.Watch.Segments
