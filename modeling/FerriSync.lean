import FerriSync.Interrupt
import FerriSync.Commit
import FerriSync.Folder
import FerriSync.Path
import FerriSync.Plan
import FerriSync.Orchestrator
import FerriSync.Reconciler
import FerriSync.Race
import FerriSync.Lib.RandomDescent
import FerriSync.Lib.Machine
import FerriSync.Lib.Duplex
import FerriSync.Transfer
import FerriSync.Session
import FerriSync.Steps
import FerriSync.Integrity
import FerriSync.Success
import FerriSync.Lib.Reports
import FerriSync.Events
import FerriSync.Lib.Conversation
import FerriSync.Layout
import FerriSync.Exchange
import FerriSync.Outcome
import FerriSync.Converge
import FerriSync.Closing
import FerriSync.Lib.Spans
import FerriSync.Reassembly
import FerriSync.Delivery
import FerriSync.Lib.Fragments
import FerriSync.Framing
import FerriSync.Limits
import FerriSync.Newer
import FerriSync.Repeat
import FerriSync.Edits
import FerriSync.Lib.Tasks
import FerriSync.Concurrent
import FerriSync.Registry
import FerriSync.Server
import FerriSync.Consent
import FerriSync.Lib.Bounded
import FerriSync.Backpressure
import FerriSync.Replies
import FerriSync.Shares
import FerriSync.Outbound
import FerriSync.Pairing
import FerriSync.Pins
import FerriSync.Trust
import FerriSync.Revocation
import FerriSync.Lib.FileTree
import FerriSync.SyncRoot
import FerriSync.Access
import FerriSync.Confine
import FerriSync.Footprint
import FerriSync.Metadata
import FerriSync.Changes
import FerriSync.Lib.Effects
import FerriSync.Serving
import FerriSync.Direction
import FerriSync.Permits
import FerriSync.Decisions
import FerriSync.Tables
import FerriSync.Database
import FerriSync.Reopening
import FerriSync.Removals
import FerriSync.Reconciliation
import FerriSync.Wiring
import FerriSync.Atomicity
import FerriSync.FolderPairs
import FerriSync.Announced
import FerriSync.Classification
import FerriSync.Lib.Keyed
import FerriSync.StateStore
import FerriSync.Verifier
import FerriSync.ProgressEvents
import FerriSync.Bulk
import FerriSync.Lib.LastSplit
import FerriSync.Conflicts
import FerriSync.KeepBoth
import FerriSync.DryRun
import FerriSync.Stores
import FerriSync.StoreRuns
import FerriSync.Renames
import FerriSync.Approvals
import FerriSync.Listeners
import FerriSync.Cleanup
import FerriSync.Adoption
import FerriSync.Replicas
import FerriSync.Health
import FerriSync.Summary
import FerriSync.Records
import FerriSync.Contact
import FerriSync.Guids
import FerriSync.Scheduler
import FerriSync.WatchLoop
import FerriSync.Polling
import FerriSync.Fragmented
import FerriSync.Greeting
import FerriSync.Dialing
import FerriSync.DeviceNames
import FerriSync.Scanning
import FerriSync.ConflictWalk
import FerriSync.ReplOrder
import FerriSync.Merging
import FerriSync.Conversions
import FerriSync.BackupNames
import FerriSync.Chunking
import FerriSync.Lib.Utf8
import FerriSync.Preview
import FerriSync.TransferManager
import FerriSync.Downloads
import FerriSync.PairedFolders
import FerriSync.Couples
import FerriSync.Spreading
import FerriSync.Launches
import FerriSync.Lib.Courses
import FerriSync.Resume
import FerriSync.Background
import FerriSync.RemoveAll
import FerriSync.Hosting
import FerriSync.Named
import FerriSync.Lib.Rest
import FerriSync.Watching
import FerriSync.Lib.OnePerKey
import FerriSync.Pendings
import FerriSync.Lib.InOrder
import FerriSync.SessionStates
import FerriSync.Requesting
import FerriSync.Waiting
