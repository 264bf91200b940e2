import Congfs.Locking.RangeOrder
import Congfs.Striping.ChunkFiles
import Congfs.Striping.DynAttribs
import Congfs.Remoting.WriteFile
import Congfs.Serialization.ClientSafety
import Congfs.Nodes.BuddyGroupMatching
import Congfs.Nodes.LocalGroup
import Congfs.Nodes.TargetStateStore
import Congfs.Nodes.StoragePoolRuns
import Congfs.Metadata.ChunkPath
import Congfs.Metadata.MetaStoreRefs
import Congfs.Metadata.MkNewMetaFile
import Congfs.Nodes.TargetSelection
import Congfs.Nodes.NumericIDFile
import Congfs.Mirroring.AtMostOnce
import Congfs.Storage.MirroredWrite
import Congfs.Remoting.ReadProtocol
import Congfs.Resync.ExactCopy
import Congfs.Resync.ResyncOutcome
import Congfs.Quota.PushExceededQuota
import Congfs.Events.FileEventPackets
import Congfs.Events.FileEventLogger
import Congfs.Toolkit.BitStoreWire
import Congfs.Toolkit.NetFilter
import Congfs.Remoting.SplitExact
import Congfs.Locking.RangeCanonical
import Congfs.Caching.Buffers
import Congfs.Nodes.PoolMoves
import Congfs.Nodes.RoundRobin
import Congfs.Resync.ModSyncOrder
import Congfs.Storage.ChunkStore
import Congfs.Toolkit.UnitTk
