import Roxo.Library.Forest
import Roxo.Library.GreedyMatch
import Roxo.Library.AssocMap
import Roxo.Library.Transition
import Roxo.Library.Replica
import Roxo.Snapshot.Metadata
import Roxo.Snapshot.MultiMap
import Roxo.Snapshot.WeakDom
import Roxo.Snapshot.InstanceSnapshot
import Roxo.Snapshot.Tree
import Roxo.Snapshot.TreeInvariant
import Roxo.Snapshot.PatchCompute
import Roxo.Snapshot.Plan
import Roxo.Snapshot.PlanShape
import Roxo.Snapshot.PatchApply
import Roxo.Snapshot.ApplyRemovals
import Roxo.Snapshot.ApplyAdditions
import Roxo.Snapshot.ApplyUpdates
import Roxo.Snapshot.Applied
import Roxo.Snapshot.Computed
import Roxo.Snapshot.MapDom
import Roxo.Snapshot.TreeRuns
import Roxo.Snapshot.SameValue
import Roxo.Snapshot.Outcome
import Roxo.Snapshot.Convergence
import Roxo.Snapshot.References
import Roxo.Snapshot.Carriers
import Roxo.Snapshot.Replay
import Roxo.Snapshot.Presence
import Roxo.Vfs.Path
import Roxo.Vfs.Vfs
import Roxo.Vfs.EventPath
import Roxo.Vfs.Symlinks
import Roxo.Vfs.Watches
import Roxo.Vfs.Disk
import Roxo.Vfs.InMemoryFs
import Roxo.SnapshotMiddleware.Environment
import Roxo.SnapshotMiddleware.SyncRule
import Roxo.SnapshotMiddleware.MetaFile
import Roxo.SnapshotMiddleware.Files
import Roxo.SnapshotMiddleware.Snapshot
import Roxo.SnapshotMiddleware.RelevantPaths
import Roxo.SnapshotMiddleware.DirectPaths
import Roxo.Server.ClientRegistry
import Roxo.Server.Probes
import Roxo.Server.Handshake
import Roxo.Server.MessageQueue
import Roxo.Server.Subscription
import Roxo.Server.Interface
import Roxo.Server.ServeSession
import Roxo.Server.ChangeProcessor
import Roxo.Server.RootSurvival
import Roxo.Syncback.PropertyFilter
import Roxo.Syncback.Hash
import Roxo.Syncback.HashedInstances
import Roxo.Syncback.HashedValues
import Roxo.Syncback.Descendants
import Roxo.Library.Lowercase
import Roxo.Library.PercentCoding
import Roxo.Syncback.FileNames
import Roxo.Syncback.Snapshot
import Roxo.Syncback.Dir
import Roxo.Syncback.Confinement
import Roxo.Syncback.OldChildren
import Roxo.Syncback.Loop
import Roxo.Resolution
import Roxo.SnapshotMiddleware.MetaSiblings
import Roxo.Syncback.IgnoredTrees
import Roxo.Syncback.IgnoredProperties
import Roxo.Syncback.WriteToVfs
import Roxo.Syncback.HashOrder
import Roxo.SnapshotMiddleware.MetaFields
import Roxo.SnapshotMiddleware.ProjectLookup
import Roxo.Syncback.FileNameRoundTrip
import Roxo.Syncback.RefProperties
import Roxo.Syncback.CollectedLinks
import Roxo.Syncback.WrittenLinks
import Roxo.Syncback.Linking
import Roxo.Syncback.LinkedIds
import Roxo.Snapshot.WellFormedPatch
import Roxo.Snapshot.Repeated
import Roxo.Server.SessionRegistry
import Roxo.Plugin.Dom
import Roxo.Plugin.InstanceMap
import Roxo.Plugin.PatchSet
import Roxo.Plugin.ChangeBatcher
import Roxo.Plugin.Reify
import Roxo.Plugin.ApplyPatch
import Roxo.Plugin.Properties
import Roxo.Plugin.AddedTrees
import Roxo.Plugin.Grown
import Roxo.Plugin.DeferredRefs
import Roxo.Plugin.Sight
import Roxo.Plugin.Additions
import Roxo.Plugin.Hydrate
import Roxo.Plugin.Diff
import Roxo.Plugin.Hydrated
import Roxo.Plugin.HydrateMatching
import Roxo.Plugin.Aligned
import Roxo.Plugin.Diffed
import Roxo.Plugin.Removals
import Roxo.Plugin.Updates
import Roxo.Plugin.Values
import Roxo.Plugin.Version
import Roxo.Plugin.InitialSync
import Roxo.SnapshotMiddleware.Termination
import Roxo.Syncback.ProjectWork
import Roxo.Plugin.AutoConnect
import Roxo.Plugin.PortRanges
import Roxo.Plugin.Discovery
import Roxo.Plugin.TrackedMap
import Roxo.Plugin.ReplaceInstances
import Roxo.Plugin.SiblingOrder
import Roxo.Plugin.Reparent
import Roxo.Plugin.Tracks
import Roxo.Plugin.LiveUpdates
import Roxo.Plugin.Grafts
import Roxo.Server.SentInstances
import Roxo.Plugin.LivePatch
import Roxo.Plugin.SyncFallback
import Roxo.Plugin.LiveSession
import Roxo.Plugin.ApiContext
import Roxo.Plugin.VerifiedServers
import Roxo.Plugin.Startup
import Roxo.Library.Serving
import Roxo.Library.Luau
import Roxo.LuaAst
import Roxo.SnapshotMiddleware.DataModules
import Roxo.SnapshotMiddleware.LoadsBack
import Roxo.Library.SortedMap
import Roxo.Snapshot.Pairing
import Roxo.SnapshotMiddleware.LocalizationRoundTrip
import Roxo.Server.IpAddr
import Roxo.Server.Origin
import Roxo.Cli.Shown
import Roxo.Cli.Sourcemap
import Roxo.Cli.Mcp
import Roxo.Cli.McpChildren
import Roxo.Server.ClientReplicas
import Roxo.Server.TreeEvents
import Roxo.Server.EventScope
import Roxo.Syncback.WrittenProperties
import Roxo.Syncback.JsonModel
import Roxo.Syncback.MetaFiles
