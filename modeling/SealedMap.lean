import SealedMap.Binary.Layout
import SealedMap.Binary.MapForm
import SealedMap.Binary.Reader
import SealedMap.Builder
import SealedMap.Construction
import SealedMap.Decimal.FloatText
import SealedMap.Decimal.Shortest
import SealedMap.Drawing
import SealedMap.Entry
import SealedMap.Event
import SealedMap.HashCode
import SealedMap.Hashing.Feed
import SealedMap.Hashing.Hasher
import SealedMap.Hashing.SipHash
import SealedMap.Index.Chained
import SealedMap.Index.Keyed
import SealedMap.Index.Placing
import SealedMap.Index.Sizing
import SealedMap.Json.Fault
import SealedMap.Json.Forms
import SealedMap.Json.MapForm
import SealedMap.Json.NumberText
import SealedMap.Json.StringText
import SealedMap.Json.Tree
import SealedMap.Kind.Key
import SealedMap.Kind.Rules
import SealedMap.Kind.Value
import SealedMap.Map
import SealedMap.Memory.Heap
import SealedMap.Memory.Machine
import SealedMap.Mutable.Mutation
import SealedMap.Mutable.Rules
import SealedMap.Mutable.Store
import SealedMap.Parallel.Split
import SealedMap.Parallel.Survey
import SealedMap.Proofs.ActionSteps
import SealedMap.Proofs.Arranging
import SealedMap.Proofs.Associations
import SealedMap.Proofs.BinaryRoundTrip
import SealedMap.Proofs.BucketNumbers
import SealedMap.Proofs.BuilderLogs
import SealedMap.Proofs.ByteReaders
import SealedMap.Proofs.ChainRenumbering
import SealedMap.Proofs.ChainWalks
import SealedMap.Proofs.Chains
import SealedMap.Proofs.CoveredKinds
import SealedMap.Proofs.Crowding
import SealedMap.Proofs.Deduplication
import SealedMap.Proofs.DistinctKeys
import SealedMap.Proofs.Drawings
import SealedMap.Proofs.Exactness
import SealedMap.Proofs.FirstEntries
import SealedMap.Proofs.Flooding
import SealedMap.Proofs.Folding
import SealedMap.Proofs.GuardedConstruction
import SealedMap.Proofs.GuardedFolding
import SealedMap.Proofs.GuardedKeeping
import SealedMap.Proofs.GuardedPlacing
import SealedMap.Proofs.GuardedRenumbering
import SealedMap.Proofs.GuardedSizing
import SealedMap.Proofs.HandedViews
import SealedMap.Proofs.HashCodes
import SealedMap.Proofs.HashIndependence
import SealedMap.Proofs.InstanceIdentity
import SealedMap.Proofs.InverseGroups
import SealedMap.Proofs.KeepingLastBuilds
import SealedMap.Proofs.KeyedLookup
import SealedMap.Proofs.KindForms
import SealedMap.Proofs.KindLayouts
import SealedMap.Proofs.LastEntries
import SealedMap.Proofs.LawfulStores
import SealedMap.Proofs.LeftFolds
import SealedMap.Proofs.Lineages
import SealedMap.Proofs.Lookup
import SealedMap.Proofs.MapEquality
import SealedMap.Proofs.MemoryReads
import SealedMap.Proofs.MemoryRuns
import SealedMap.Proofs.MergeCalls
import SealedMap.Proofs.MergingBuilds
import SealedMap.Proofs.NumberForms
import SealedMap.Proofs.NumberLayouts
import SealedMap.Proofs.Occurrences
import SealedMap.Proofs.Outcomes
import SealedMap.Proofs.PairStreams
import SealedMap.Proofs.ParallelCollection
import SealedMap.Proofs.Placement
import SealedMap.Proofs.Reading
import SealedMap.Proofs.RefusedBuilds
import SealedMap.Proofs.Registers
import SealedMap.Proofs.RejectingBuilds
import SealedMap.Proofs.RejectingReads
import SealedMap.Proofs.Renumbering
import SealedMap.Proofs.Resolution
import SealedMap.Proofs.Resolving
import SealedMap.Proofs.ResumedBuilds
import SealedMap.Proofs.SessionActions
import SealedMap.Proofs.SessionIdentity
import SealedMap.Proofs.SharedArenas
import SealedMap.Proofs.Sizing
import SealedMap.Proofs.Snapshots
import SealedMap.Proofs.StableSorting
import SealedMap.Proofs.StoreWrites
import SealedMap.Proofs.Streams
import SealedMap.Proofs.StringForms
import SealedMap.Proofs.SupersededEntries
import SealedMap.Proofs.TextRoundTrip
import SealedMap.Proofs.Truncation
import SealedMap.Proofs.ValueGroups
import SealedMap.Proofs.ValueOrderedBuilds
import SealedMap.Proofs.ValuePartition
import SealedMap.Proofs.ViewAgreement
import SealedMap.Proofs.ViewLedgers
import SealedMap.Refusal
import SealedMap.Repeats
import SealedMap.Session.Action
import SealedMap.Session.Answer
import SealedMap.Session.BuilderSteps
import SealedMap.Session.Instance
import SealedMap.Session.Kinds
import SealedMap.Session.MapSteps
import SealedMap.Session.Run
import SealedMap.Session.State
import SealedMap.Session.Step
import SealedMap.Session.ViewSteps
import SealedMap.Text.Hex
import SealedMap.Text.Listing
import SealedMap.Text.Quoted
import SealedMap.Text.Seen
import SealedMap.Text.Shown
import SealedMap.Text.Unseen
import SealedMap.View.Collection
import SealedMap.View.Cursor
import SealedMap.View.Inverse
import SealedMap.View.Multimap
