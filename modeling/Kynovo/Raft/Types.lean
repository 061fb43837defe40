import Mathlib.Data.List.Sort
import Kynovo.Wal.Record

/-! The data of one raft node: log, peers, configuration, snapshots, the
latches of deferred replies, reads, and the buffers of the Ready output. Terms,
indexes and node ids are the source's signed integers; a node id is valid when
it is positive. A cookie is a client's tag, 0 when there is none. Allocation
never fails here. -/
namespace Kynovo.Raft
open Kynovo.Wal.Record

inductive Role where
  | follower
  | candidate
  | leader
deriving DecidableEq

inductive Phase where
  | ready
  | running
  | stopping
  | draining
  | stopped
deriving DecidableEq

inductive ClientStatus where
  | redirect
  | committed
  | ready
  | failed
  | catchupReady
  | catchupFailed
deriving DecidableEq

/-! Entry kinds are one byte on the wire, and a receiver checks only the first
new entry of a message, so they stay numbers. -/
def entryCommand : Nat := 0
def entryNoop : Nat := 1
def entryConfig : Nat := 2

/-- The highest term a node ever holds. -/
def termMax : Int := 9223372036854775806

/-- A term above `termMax` is refused everywhere. -/
def termOutOfRange (term : Int) : Bool := decide (termMax + 1 ≤ term)

def raftCatchupRounds : Int := 10

/-- Counters of completed persists and of read rounds are 32 bits wide. -/
def wrap32 (value : Nat) : Nat := value % 2 ^ 32

/-- Elapsed milliseconds saturate instead of wrapping. -/
def raftElapsedAdd (cur add : Nat) : Nat := min (cur + add) (2 ^ 32 - 1)

def raftIdValid (id : Int) : Bool := decide (0 < id)

structure Entry where
  term : Int
  kind : Nat
  data : List UInt8
  cfgOld : List Int
  cfgNew : List Int
  cfgLearners : List Int
deriving DecidableEq

structure Log where
  entries : List Entry
  lastIncludedIndex : Int
  lastIncludedTerm : Int
  chunkSize : Nat
deriving DecidableEq

structure Peer where
  id : Int
  isLearner : Bool := false
  nextIndex : Int := 0
  matchIndex : Int := 0
  pendingSnapshotOffset : Int := 0
  pendingSnapshotLastIndex : Int := 0
  vote : Bool := false
  preVoteAcked : Bool := false
  inOldConfig : Bool := false
  inNewConfig : Bool := false
  readIndexAcked : Bool := false
  quorumAcked : Bool := false
  missedRounds : Nat := 0
  catchupRound : Int := 0
  catchupRoundStartIndex : Int := 0
  catchupRoundElapsed : Nat := 0
  catchupCookie : Nat := 0
deriving DecidableEq

structure SnapshotMeta where
  lastIndex : Int
  lastTerm : Int
  size : Int
  cfgOld : List Int
  cfgNew : List Int
  cfgLearners : List Int
deriving DecidableEq

def SnapshotMeta.zero : SnapshotMeta := ⟨0, 0, 0, [], [], []⟩

structure ReadBarrier where
  cookie : Nat
  targetIndex : Int
  needsGen : Nat
deriving DecidableEq

structure ClientPending where
  cookie : Nat
  logIndex : Int
deriving DecidableEq

/-- A follower's request waiting for the leader's round. The stored index is
always the sentinel 0, so it is left out: the answer takes the commit index at
the flush. -/
structure ReadIndexPending where
  sender : Int
  context : Nat
deriving DecidableEq

/-! ## Messages -/

structure RequestVote where
  term : Int
  lastLogIndex : Int
  lastLogTerm : Int
  candidateId : Int
  preVote : Bool
deriving DecidableEq

structure RequestVoteResult where
  term : Int
  voteGranted : Bool
  preVote : Bool
deriving DecidableEq

structure AppendEntries where
  term : Int
  prevLogIndex : Int
  prevLogTerm : Int
  leaderCommit : Int
  readContext : Nat
  entries : List Entry
  leaderId : Int
deriving DecidableEq

structure AppendEntriesResult where
  term : Int
  rejected : Int
  lastLogIndex : Int
  conflictTerm : Int
  conflictFirstIndex : Int
  readContext : Nat
  success : Bool
deriving DecidableEq

/-- The bytes of a chunk are the caller's and are not read here. -/
structure InstallSnapshot where
  term : Int
  snapshotLastIndex : Int
  snapshotLastTerm : Int
  snapshotOffset : Int
  snapshotDataSize : Int
  snapshotChunkSize : Int
  snapshotCfgOld : List Int
  snapshotCfgNew : List Int
  snapshotCfgLearners : List Int
  snapshotDone : Bool
  leaderId : Int
deriving DecidableEq

structure InstallSnapshotResult where
  term : Int
  lastIncludedIndex : Int
deriving DecidableEq

structure TimeoutNow where
  term : Int
  lastLogIndex : Int
  lastLogTerm : Int
  leaderId : Int
deriving DecidableEq

structure ReadIndexReq where
  term : Int
  context : Nat
deriving DecidableEq

structure ReadIndexResult where
  term : Int
  readIndex : Int
  context : Nat
deriving DecidableEq

inductive Rpc where
  | requestVote (rpc : RequestVote)
  | requestVoteResult (result : RequestVoteResult)
  | appendEntries (rpc : AppendEntries)
  | appendEntriesResult (result : AppendEntriesResult)
  | installSnapshot (rpc : InstallSnapshot)
  | installSnapshotResult (result : InstallSnapshotResult)
  | readIndex (rpc : ReadIndexReq)
  | readIndexResult (result : ReadIndexResult)
  | timeoutNow (rpc : TimeoutNow)
deriving DecidableEq

/-- The message's own `term` field repeats the one inside and no receiver reads
it. -/
structure PeerMessage where
  sender : Int
  target : Int
  rpc : Rpc
deriving DecidableEq

structure Command where
  cookie : Nat
  command : List UInt8
deriving DecidableEq

inductive ClientMessage where
  | submit (commands : List Command)
  | barrier (cookie : Nat)
  | reconfig (cookie : Nat) (ids : List Int)
  | addLearner (cookie : Nat) (learnerId : Int)
  | removeLearner (cookie : Nat) (learnerId : Int)
  | transfer (cookie : Nat) (targetId : Int)
deriving DecidableEq

/-! ## Ready output -/

structure ApplyEntry where
  index : Int
  term : Int
  kind : Nat
  command : List UInt8
  cookie : Nat
  cfgOld : List Int
  cfgNew : List Int
  cfgLearners : List Int
deriving DecidableEq

structure ClientResult where
  cookie : Nat
  status : ClientStatus
  leaderId : Int
deriving DecidableEq

structure SnapshotReadReq where
  followerId : Int
  lastIncludedIndex : Int
  byteOffset : Int
  byteCount : Nat
deriving DecidableEq

/-! ## The node -/

/-- The settings a node keeps from its configuration. -/
structure Settings where
  id : Int
  heartbeatMs : Nat
  electionMinMs : Nat
  electionMaxMs : Nat
  snapshotChunkSize : Nat
deriving DecidableEq

structure Timers where
  rng : UInt32
  heartbeatElapsed : Nat
  electionElapsed : Nat
  electionDeadline : Nat
  leaderContactElapsed : Nat
  jointElapsed : Nat
deriving DecidableEq

structure Transfer where
  target : Int
  elapsed : Nat
  cookie : Nat
deriving DecidableEq

/-- `old` and `new` are the voters, equal unless the configuration is joint;
`index` is the log index of the change that is pending. -/
structure Membership where
  old : List Int
  new : List Int
  learners : List Int
  bootstrap : List Int
  joint : Bool
  pendingOld : List Int
  pendingNew : List Int
  pendingLearners : List Int
  pending : Bool
  index : Int
  appliedIndex : Int
  applyStale : Bool
deriving DecidableEq

/-- A reconfiguration that waits for its new servers. -/
structure Catchup where
  new : List Int
  cookie : Nat
  active : Bool
  round : Int
  startIndex : Int
  elapsed : Nat
  totalElapsed : Nat
deriving DecidableEq

def Catchup.none : Catchup := ⟨[], 0, false, 0, 0, 0, 0⟩

structure DeferredVote where
  response : Bool
  target : Int
  gen : Nat
deriving DecidableEq

structure DeferredVoteRequest where
  pending : Bool
  gen : Nat
deriving DecidableEq

structure DeferredAppend where
  response : Bool
  target : Int
  lastIndex : Int
  confirmed : Int
  readContext : Nat
  gen : Nat
deriving DecidableEq

structure DeferredReject where
  pending : Bool
  gen : Nat
  hint : Int
  target : Int
  lastIndex : Int
  conflictTerm : Int
  conflictFirstIndex : Int
  readContext : Nat
deriving DecidableEq

/-- The follower's own ReadIndex batch: the first `frozen` cookies belong to the
round in flight. -/
structure FollowerRead where
  pending : List Nat
  frozen : Nat
  waiting : Bool
  context : Nat
  elapsed : Nat
  barrierElapsed : Nat
  barrierLastApplied : Int
deriving DecidableEq

structure Node where
  cfg : Settings
  phase : Phase
  state : Role
  votedFor : Int
  leaderId : Int
  currentTerm : Int
  commitIndex : Int
  lastApplied : Int
  applyOffered : Int
  timers : Timers
  inPreVote : Bool
  transfer : Transfer
  persistNeeded : Bool
  readyPersistPending : Bool
  peers : List Peer
  log : Log
  config : Membership
  catchup : Catchup
  snapshot : SnapshotMeta
  snapshotPending : SnapshotMeta
  snapshotPendingDirty : Bool
  snapshotDataReadyFlag : Bool
  snapshotRecv : SnapshotMeta
  snapshotRecvExpectedOffset : Int
  snapshotInstallPending : Bool
  deferredVote : DeferredVote
  deferredVoteRequest : DeferredVoteRequest
  deferredAppend : DeferredAppend
  deferredReject : DeferredReject
  persistGen : Nat
  termDirtyGen : Nat
  durableIndex : Int
  persistSyncedIndex : Int
  durableConfirm : Int
  readBarriers : List ReadBarrier
  leadershipConfirmed : Bool
  readBarrierGen : Nat
  followerRead : FollowerRead
  readIndexPending : List ReadIndexPending
  readContext : Nat
  readIndexHeartbeatSent : Bool
  clientPending : List ClientPending
  msgs : List PeerMessage
  applies : List ApplyEntry
  results : List ClientResult
  snapReads : List SnapshotReadReq
deriving DecidableEq

/-- What `raft_create` is given. -/
structure CreateConfig where
  id : Int
  peers : List Int
  bootstrap : Bool
  heartbeatMs : Nat
  electionMinMs : Nat
  electionMaxMs : Nat
  seed : UInt32
  snapshotChunkSize : Nat
  logChunkSize : Int
  restore : Option Persist
deriving DecidableEq

/-- What one call of `raft_advance` hands out. -/
structure Ready where
  phaseStopped : Bool
  persist : Option Persist
  applies : List ApplyEntry
  results : List ClientResult
  msgs : List PeerMessage
  snapshotInstallNeeded : Bool
  snapshotLastIndex : Int
  snapshotLastTerm : Int
  snapshotSize : Int
  snapReads : List SnapshotReadReq
deriving DecidableEq

end Kynovo.Raft
