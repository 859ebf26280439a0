import Mimisbrunnr.Disk.BlobIsolation
import Mimisbrunnr.Engine.Clock
import Mimisbrunnr.Engine.ImageRoundTrip
import Mimisbrunnr.Engine.Negation
import Mimisbrunnr.Engine.ReplayIdempotence
import Mimisbrunnr.Engine.TagClosure
import Mimisbrunnr.Fuse.TagPaths
import Mimisbrunnr.Index.ChunkReferences
import Mimisbrunnr.Index.FailedFlush
import Mimisbrunnr.Index.StoreMembership
import Mimisbrunnr.Index.TagLoading
import Mimisbrunnr.Meta.TreeGrowth
import Mimisbrunnr.Ontology.PolicyResolution
import Mimisbrunnr.Ontology.Sharing
import Mimisbrunnr.Query.Grammar
import Mimisbrunnr.Query.RangeComparisons
import Mimisbrunnr.Sql.Engine
import Mimisbrunnr.Sql.LikePatterns
import Mimisbrunnr.Storage.JournalOrder
import Mimisbrunnr.Storage.JournalPins
import Mimisbrunnr.Storage.OpenedRoot
import Mimisbrunnr.Storage.PackOrder
import Mimisbrunnr.Storage.PackSafety
import Mimisbrunnr.Storage.Promotion
import Mimisbrunnr.Storage.StaleRefs
import Mimisbrunnr.Unix.ExportRuns
import Mimisbrunnr.Watch.Retention
import Mimisbrunnr.Watch.TagLinks
import Mimisbrunnr.Disk.CrashRecovery
import Mimisbrunnr.Disk.NewZone
import Mimisbrunnr.Disk.ReadContent
import Mimisbrunnr.Disk.ReadOnly
import Mimisbrunnr.Disk.ZoneRoundTrip
import Mimisbrunnr.Fuse.DirectoryPages
import Mimisbrunnr.Fuse.MountedFiles
import Mimisbrunnr.Unix.Import
import Mimisbrunnr.Unix.ProjectImport
import Mimisbrunnr.Disk.Survival
