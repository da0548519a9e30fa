import Prism.Properties.CatalogRuns
import Prism.Properties.CursorBinding
import Prism.Properties.PartialAnswers
import Prism.Properties.PlanErrors
import Prism.Properties.RecordIds
import Prism.Properties.Rollback
import Prism.Properties.Takeover
import Prism.Properties.Epochs
import Prism.Properties.Collection
import Prism.Properties.RemoteOrphans
import Prism.Properties.ColdTier
import Prism.Properties.MirrorCoverage
import Prism.Properties.CacheConsistency
import Prism.Properties.AdcKernels
import Prism.Properties.ClusterMerge
import Prism.Properties.Checksums
import Prism.Properties.SealedBlocks
import Prism.Properties.DeviceShares
import Prism.Properties.Hydration
import Prism.Properties.Pruning
import Prism.Properties.AdmissionFiles
import Prism.Properties.PredicateLaws
import Prism.Properties.EventIdentity
import Prism.Properties.TenantFairness
import Prism.Properties.EventChecks
import Prism.Properties.CasPublish
