import Kynovo.Lib.LittleEndian
import Kynovo.Lib.FileBytes
import Kynovo.Lib.IndexedLog
import Kynovo.Wal.Record
import Kynovo.Wal.Append
import Kynovo.Wal.Recovery
import Kynovo.Wal.ScanProofs
import Kynovo.Wal.StoreProofs
import Kynovo.Wal.RecoveryFold
import Kynovo.Wal.Crash
import Kynovo.Wal.Retention
import Kynovo.Wal.BaseChoice
import Kynovo.Raft.Log
import Kynovo.Raft.Config
import Kynovo.Raft.Leader
import Kynovo.Raft.Advance
import Kynovo.Raft.Recv
import Kynovo.Raft.Client
import Kynovo.Raft.Frame
import Kynovo.Raft.Run
import Kynovo.Raft.NodeEdits
import Kynovo.Raft.Frontier
import Kynovo.Raft.Durability
import Kynovo.Raft.Gate
import Kynovo.Store.Treap
import Kynovo.Server.AddressBook
import Kynovo.Server.Command
import Kynovo.Server.Inbound
import Kynovo.Server.Admission
import Kynovo.Store.Stream
import Kynovo.Server.SnapshotFile
import Kynovo.Server.SnapshotImage
import Kynovo.Server.SnapshotRoundTrip
import Kynovo.Raft.Owed
import Kynovo.Server.Drive
import Kynovo.Server.SoleVoter
import Kynovo.Lib.Codec
import Kynovo.Proto.Framing
import Kynovo.Proto.Fields
import Kynovo.Proto.PeerCodec
import Kynovo.Proto.ClientCodec
import Kynovo.Raft.Refusal
import Kynovo.Raft.Vote
import Kynovo.Store.RangeProofs
import Kynovo.Server.Transfer
import Kynovo.Raft.LocalSave
import Kynovo.Server.SnapshotRelease
import Kynovo.Server.MembersText
import Kynovo.Server.RxAccount
import Kynovo.Server.CommandSemantics
import Kynovo.Raft.BackOff
import Kynovo.Raft.OutputFrame
import Kynovo.Server.OutputLedger
import Kynovo.Server.Clock
import Kynovo.Harness.Lincheck
import Kynovo.Client.Endpoints
import Kynovo.Client.Machine
import Kynovo.Client.Topology
import Kynovo.Client.Outcomes
import Kynovo.Server.AddressMap
import Kynovo.Lib.Strtoull
import Kynovo.Lib.BucketTable
import Kynovo.Vfs.Mem
import Kynovo.Vfs.Refines
import Kynovo.Raft.Standing
import Kynovo.Raft.SelfElection
import Kynovo.Server.BaseRecords
import Kynovo.Store.Ownership
import Kynovo.Server.OpenCapture
import Kynovo.Store.Clones
import Kynovo.Store.Heap
import Kynovo.Store.OrderedMap
import Kynovo.Store.Shape
import Kynovo.Server.TreeRoundTrip
import Kynovo.Store.NodeHeap
import Kynovo.Store.Isolation
import Kynovo.Raft.Matching
import Kynovo.Event.TimerRun
import Kynovo.Event.SlotRuns
import Kynovo.Event.MailboxWakes
