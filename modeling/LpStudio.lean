import LpStudio.ChangeSet.Elements
import LpStudio.ChangeSet.Exportable
import LpStudio.ChangeSet.Handlers
import LpStudio.ChangeSet.RenameCycles
import LpStudio.ChangeSet.ScriptFiles
import LpStudio.ChangeSet.UnifiedDiff
import LpStudio.Contracts.ExportReport
import LpStudio.Lib.DirTree
import LpStudio.Lib.Json
import LpStudio.Lib.TreeWrites
import LpStudio.Server.ApprovedRuns
import LpStudio.Server.ContextRedaction
import LpStudio.Server.Credentials
import LpStudio.Server.Envelopes
import LpStudio.Server.ImportReview
import LpStudio.Server.Preview
import LpStudio.Server.PublicationStructure
import LpStudio.Server.RedactedLines
import LpStudio.Server.Registry
import LpStudio.Server.Resolution
import LpStudio.Server.StoredTargets
import LpStudio.StaticExport.Confinement
import LpStudio.StaticExport.Persisted
import LpStudio.StaticExport.ResponsiveImages
import LpStudio.StaticExport.StyleCoverage
import LpStudio.Storage.Backup
import LpStudio.Storage.CommitRecovery
import LpStudio.Storage.DisplayName
import LpStudio.Storage.GeneratedCollections
import LpStudio.Storage.ImportedPaths
import LpStudio.Storage.Materialize
import LpStudio.Storage.MigratedTree
import LpStudio.Storage.ProjectResumption
import LpStudio.Storage.RecoveryIsolation
import LpStudio.Storage.RecoveryReader
import LpStudio.Storage.TargetReplacement
import LpStudio.Synapse.Runs
