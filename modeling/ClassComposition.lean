import ClassComposition.Bench.Micro
import ClassComposition.Bench.Report
import ClassComposition.Class.Patch
import ClassComposition.Config.Document
import ClassComposition.Proofs.Class.References
import ClassComposition.Proofs.Member.Tree
import ClassComposition.Proofs.Class.Tree
import ClassComposition.Proofs.Class.Conformance
import ClassComposition.Proofs.Method.Frame
import ClassComposition.Proofs.Class.Shared
import ClassComposition.Proofs.Class.Prototype
import ClassComposition.Proofs.Member.Kept
import ClassComposition.Proofs.Class.Kept
import ClassComposition.Proofs.Registry.Agreement
import ClassComposition.Proofs.Class.Retained
import ClassComposition.Proofs.Store.Extension
import ClassComposition.Proofs.Class.Overlay
import ClassComposition.Proofs.Registry.Atomicity
import ClassComposition.Proofs.Member.Data
import ClassComposition.Proofs.Method.Quiet
import ClassComposition.Proofs.Class.Reading
import ClassComposition.Proofs.Method.Recording
import ClassComposition.Proofs.Registry.Chain
import ClassComposition.Proofs.Registry.Cooperation
import ClassComposition.Proofs.Member.Regular
import ClassComposition.Proofs.Class.Making
import ClassComposition.Proofs.Class.NewInstance
import ClassComposition.Proofs.Registry.Lookup
import ClassComposition.Proofs.Registry.Ownership
import ClassComposition.Proofs.Registry.Sharing
import ClassComposition.Proofs.Store.Contents
import ClassComposition.Proofs.Class.OverlayContents
import ClassComposition.Proofs.Member.Alike
import ClassComposition.Proofs.Member.Settled
import ClassComposition.Proofs.Class.SameBody
import ClassComposition.Proofs.Class.SharedAlike
import ClassComposition.Proofs.Class.Alike
import ClassComposition.Proofs.Class.InstanceAlike
import ClassComposition.Proofs.Registry.Alike
import ClassComposition.Proofs.Registry.Replay
import ClassComposition.Proofs.Class.Failures
import ClassComposition.Proofs.Registry.Vacancy
import ClassComposition.Proofs.Member.Contribution
import ClassComposition.Proofs.Registry.Lineage
import ClassComposition.Proofs.Matching
import ClassComposition.Proofs.Member.Rereading
import ClassComposition.Proofs.Class.Matching
import ClassComposition.Proofs.Registry.Matching
import ClassComposition.Proofs.Registry.Snapshot
import ClassComposition.Proofs.Store.Renaming
import ClassComposition.Proofs.Class.Renaming
import ClassComposition.Proofs.Registry.Renaming
import ClassComposition.Proofs.Store.Following
import ClassComposition.Proofs.Store.Exchange
import ClassComposition.Proofs.Registry.Commuting
import ClassComposition.Proofs.Member.Merged
import ClassComposition.Proofs.Member.Composed
import ClassComposition.Proofs.Member.Conflict
import ClassComposition.Proofs.Class.Patch
import ClassComposition.Proofs.Registry.Prototypes
import ClassComposition.Proofs.Registry.Patching
import ClassComposition.Proofs.Registry.PatchedName
import ClassComposition.Proofs.Class.Remade
import ClassComposition.Proofs.Class.Building
import ClassComposition.Proofs.Class.OverlayResult
import ClassComposition.Proofs.Class.Inheriting
import ClassComposition.Proofs.Registry.Package
import ClassComposition.Proofs.Class.ReadBack
import ClassComposition.Proofs.Store.Equality
import ClassComposition.Proofs.Store.Comparison
import ClassComposition.Proofs.Json.Spelling
import ClassComposition.Proofs.Json.Tokens
import ClassComposition.Proofs.Json.Writing
import ClassComposition.Proofs.Config.Document
import ClassComposition.Proofs.Member.Key
import ClassComposition.Proofs.Registry.OverrideChains
import ClassComposition.Proofs.Class.Declaring
import ClassComposition.Proofs.Registry.Overriding
import ClassComposition.Proofs.Method.Forwarding
import ClassComposition.Proofs.Registry.Forwarding
import ClassComposition.Proofs.Registry.Defining
import ClassComposition.Proofs.Bench.Suite
import ClassComposition.Proofs.Bench.Micro
import ClassComposition.Proofs.Class.Path
import ClassComposition.Proofs.Registry.Resolution
