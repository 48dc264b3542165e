import Immulog.Coalescing
import Immulog.Corruption
import Immulog.DiskPressure
import Immulog.EventPayloads
import Immulog.Grammar
import Immulog.HistoryBudget
import Immulog.InPlaceProjections
import Immulog.Ingress
import Immulog.LockOrder
import Immulog.PartitionRuns
import Immulog.PrefixDigest
import Immulog.PreflightChain
import Immulog.Registry
import Immulog.SegmentBound
import Immulog.SegmentFiles
import Immulog.SidecarFiles
import Immulog.StoreRegistry
import Immulog.TailBudget
import Immulog.TornTail
