import LeanBun.Lib.Text
import LeanBun.Lib.Sorted
import LeanBun.Lib.Delimited
import LeanBun.Core.Sha256
import LeanBun.Lock.Model
import LeanBun.Lock.Graph
import LeanBun.Lock.Digest
import LeanBun.Lock.Codec
import LeanBun.Lock.RoundTrip
import LeanBun.Bridge.Declaration
import LeanBun.Resolver.Model
import LeanBun.Lib.Worklist
import LeanBun.Resolver.Resolve
import LeanBun.Resolver.Selection
import LeanBun.Resolver.Update
import LeanBun.Core.Identity
import LeanBun.Generation.Model
import LeanBun.Lib.Durable
import LeanBun.Generation.Record
import LeanBun.Generation.Tree
import LeanBun.Generation.Manager
import LeanBun.Generation.Primitives
import LeanBun.Generation.Publishing
import LeanBun.Generation.Recovering
import LeanBun.Generation.RollingBack
import LeanBun.Generation.Invariant
import LeanBun.Generation.Recovery
import LeanBun.Generation.Progress
import LeanBun.Generation.Ownership
import LeanBun.Generation.Binding
import LeanBun.Generation.Retention
import LeanBun.Generation.Completion
import LeanBun.Bridge.Projection
import LeanBun.Lock.Reservoir
import LeanBun.Lock.Source
import LeanBun.Store.Object
import LeanBun.Generation.Build
import LeanBun.Generation.Places
import LeanBun.Generation.Closure
import LeanBun.Codec.Grammar
import LeanBun.Codec.Scan
import LeanBun.Codec.Strings
import LeanBun.Codec.Numbers
import LeanBun.Codec.Parse
import LeanBun.Codec.Accept
import LeanBun.Codec.Strict
import LeanBun.Managed.Model
import LeanBun.Managed.Controller
import LeanBun.Managed.Phases
import LeanBun.Managed.Pairing
import LeanBun.Managed.Targets
import LeanBun.Lib.Reaching
import LeanBun.Core.Evaluate
import LeanBun.Managed.Completing
import LeanBun.Managed.Sample
import LeanBun.Managed.Agreement
import LeanBun.Managed.Release
import LeanBun.Approval.Request
import LeanBun.Approval.Canonical
import LeanBun.Resolver.Frozen
import LeanBun.Resolver.Spelling
import LeanBun.Build.PackageReuse
import LeanBun.Lock.Ranked
import LeanBun.Build.Closure
import LeanBun.Execution.Document
import LeanBun.Execution.Store
import LeanBun.Lib.Interference
import LeanBun.Execution.Lifecycle
import LeanBun.Execution.BuildLock
import LeanBun.Execution.Recover
import LeanBun.Execution.Rules
import LeanBun.Execution.Ownership
import LeanBun.Execution.Holders
import LeanBun.Execution.Exclusion
import LeanBun.Execution.Undisturbed
import LeanBun.Execution.Recovered
import LeanBun.Execution.Crash
import LeanBun.Lock.InputOrder
import LeanBun.Lock.SourceUrl
import LeanBun.Resolver.CandidateOrder
import LeanBun.Lib.Trails
import LeanBun.Lock.Heights
import LeanBun.Resolver.Depth
import LeanBun.Generation.Refusal
import LeanBun.Managed.Verification
import LeanBun.Generation.Copying
import LeanBun.Reuse.Candidate
import LeanBun.Reuse.Selection
import LeanBun.Reuse.Sources
import LeanBun.Reuse.History
import LeanBun.Core.Standard
import LeanBun.Generation.ReadBack
import LeanBun.Managed.Readable
import LeanBun.Managed.References
import LeanBun.Managed.ReferenceStore
import LeanBun.Lib.Lossy
import LeanBun.Plan.Inventory
import LeanBun.Plan.Contract
import LeanBun.Plan.Offered
import LeanBun.Build.ImageRuns
import LeanBun.Build.ImageRecovery
import LeanBun.Documents.Json
import LeanBun.Documents.Store
import LeanBun.Documents.Bindings
import LeanBun.Documents.Stores
import LeanBun.Build.ArtifactTree
import LeanBun.Approval.Response
import LeanBun.Build.Supervised
import LeanBun.Lock.ReservoirText
import LeanBun.Resolver.ReservoirPolicy
import LeanBun.Build.WorkspacePaths
import LeanBun.Evidence.Documents
import LeanBun.Evidence.ProviderPair
import LeanBun.Evidence.ProjectInput
import LeanBun.Evidence.ProjectIdentity
import LeanBun.Evidence.IdentityBinding
import LeanBun.Evidence.ProviderDrift
import LeanBun.Managed.Registered
import LeanBun.Managed.OneTree
import LeanBun.Resolver.GraphIdentity
import LeanBun.Intake.LineKinds
import LeanBun.Plan.Preimages
import LeanBun.Evidence.Snapshots
import LeanBun.Reuse.Chains
import LeanBun.Documents.Attestations
