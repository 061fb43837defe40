import Kynovo.Raft.Advance

/-! The handlers of peer messages. Each returns the node after the call and the
source's return code. A node is always at least in its ready phase, so that
guard of the source never fires. -/
namespace Kynovo.Raft

/-- A message of a newer term is handled by a follower of that term. -/
def adoptTerm (r : Node) (term leaderId : Int) : Node :=
  if r.currentTerm < term then raftStepDown r term leaderId else r

/-! ## Votes -/

/-- The candidate's log is at least as up to date as ours. -/
def logOk (r : Node) (rpc : RequestVote) : Bool :=
  let lastIdx := raftLogLastIndex r.log
  let lastTerm := raftLogTermAt r.log lastIdx
  decide (lastTerm < rpc.lastLogTerm) ||
    (rpc.lastLogTerm == lastTerm && decide (lastIdx ≤ rpc.lastLogIndex))

def grantVote (r : Node) (sender candidateId : Int) : Node :=
  { r with
    votedFor := candidateId
    timers.electionElapsed := 0
    persistNeeded := true
    deferredVote := ⟨true, sender, r.nextGen⟩ }

def raftRecvRequestVote (r : Node) (sender : Int) (rpc : RequestVote) : Node × Int :=
  if !raftIdValid sender || !raftIdValid rpc.candidateId || termOutOfRange rpc.term then (r, 0)
  else if rpc.preVote && r.timers.leaderContactElapsed < r.cfg.electionMinMs then (r, 0)
  else
    let r := adoptTerm r rpc.term 0
    if rpc.term < r.currentTerm then (r, 0)
    else if !rpc.preVote && r.votedFor ≠ 0 && r.votedFor ≠ rpc.candidateId then (r, 0)
    else if !logOk r rpc then (r, 0)
    else if rpc.preVote then
      (sendMessage r sender (.requestVoteResult ⟨r.currentTerm, true, true⟩), 0)
    else (grantVote r sender rpc.candidateId, 0)

/-- Votes, or pre-votes, together with the node's own reach a quorum. -/
def votesReached (r : Node) (preVote : Bool) : Bool :=
  quorumReached r (fun oldConfigOnly =>
    (r.selfIn oldConfigOnly).toNat + raftCountVotes r oldConfigOnly preVote)

/-- Records a granted pre-vote or vote of a peer. -/
def markVote (r : Node) (sender : Int) (granted preVote : Bool) : Node :=
  if granted then
    { r with
      peers := updatePeer r.peers sender (fun peer =>
        if preVote then { peer with preVoteAcked := true } else { peer with vote := true }) }
  else r

def countPreVote (r : Node) : Node :=
  if votesReached r true then (raftBecomeCandidate { r with inPreVote := false }).1 else r

def countVote (r : Node) : Node := if votesReached r false then raftBecomeLeader r else r

def raftRecvRequestVoteResult (r : Node) (sender : Int) (result : RequestVoteResult) : Node × Int :=
  if !raftIdValid sender then (r, 0)
  else if !r.inPreVote && r.state ≠ .candidate then (r, 0)
  else if r.currentTerm < result.term then (raftStepDown r result.term 0, 0)
  else if result.term < r.currentTerm then (r, 0)
  else if (raftFindPeer r sender).isNone then (r, 0)
  else if result.preVote then
    if r.inPreVote then (countPreVote (markVote r sender result.voteGranted true), 0) else (r, 0)
  else if r.state ≠ .candidate then (r, 0)
  else (countVote (markVote r sender result.voteGranted false), 0)

/-! ## Append entries -/

/-- A valid message of the term's leader ends candidacy and pre-vote. -/
def followLeader (r : Node) (leaderId : Int) : Node :=
  { r with
    inPreVote := false
    leaderId := leaderId
    state := .follower
    timers := { r.timers with
      leaderContactElapsed := 0
      electionElapsed := 0 } }

/-- What the entries of a message ask of the log. -/
inductive AppendScan where
  /-- an entry of unknown kind or out of range, before anything is changed -/
  | malformed
  /-- an entry at or below the compacted prefix -/
  | belowBase
  /-- every entry is already there -/
  | keep
  /-- the log is cut to an index, if it reaches further, and entries are appended -/
  | splice (cutTo : Option Int) (new : List Entry)
deriving DecidableEq

def scanEntries (log : Log) (idx : Int) : List Entry → AppendScan
  | [] => .keep
  | entry :: rest =>
    if 2 < entry.kind || termOutOfRange entry.term then .malformed
    else if idx ≤ raftLogLastIndex log && log.lastIncludedIndex < idx &&
        raftLogTermAt log idx = entry.term then scanEntries log (idx + 1) rest
    else if idx ≤ raftLogLastIndex log then
      if idx - 1 < log.lastIncludedIndex then .belowBase
      else .splice (some (idx - 1)) (entry :: rest)
    else .splice none (entry :: rest)

/-- Appends entries up to one whose term is out of range. The kinds after the
first new entry are not checked. -/
def appendNew (log : Log) (new : List Entry) : Log :=
  { log with entries := log.entries ++
      (new.take 1 ++ (new.drop 1).takeWhile (fun entry => !termOutOfRange entry.term)).map storedEntry }

def allInRange (new : List Entry) : Bool :=
  (new.drop 1).all (fun entry => !termOutOfRange entry.term)

def cutFor (r : Node) (cutTo : Option Int) : Node :=
  match cutTo with
  | none => r
  | some idx => raftLogCut r idx

/-- A follower commits up to the last entry the message established. -/
def followCommit (r : Node) (rpc : AppendEntries) : Node :=
  if r.commitIndex < rpc.leaderCommit then
    let cap := min (min (rpc.prevLogIndex + rpc.entries.length) (raftLogLastIndex r.log))
      rpc.leaderCommit
    { r with commitIndex := max r.commitIndex cap }
  else r

/-- A heartbeat is answered at once only when nothing waits for the disk. -/
def heartbeatReply (r : Node) (rpc : AppendEntries) : Node :=
  sendMessage r r.leaderId (.appendEntriesResult ⟨r.currentTerm, 0,
    min r.durableConfirm rpc.prevLogIndex, 0, 0, rpc.readContext, true⟩)

def latchAppend (r : Node) (rpc : AppendEntries) : Node :=
  let latch :=
    if r.deferredAppend.response then r.deferredAppend
    else { r.deferredAppend with
      gen := r.nextGen
      lastIndex := -1
      confirmed := 0 }
  { r with deferredAppend := { latch with
      confirmed := max latch.confirmed (rpc.prevLogIndex + rpc.entries.length)
      response := true
      target := r.leaderId
      readContext := rpc.readContext } }

/-- The reply to an accepted message. -/
def replyAppend (r : Node) (rpc : AppendEntries) : Node :=
  if rpc.entries.isEmpty && !r.persistNeeded && r.termDirtyGen ≤ r.persistGen then
    heartbeatReply r rpc
  else if r.persistNeeded then latchAppend r rpc
  else r

/-- The configuration is looked up again when the log may have changed. -/
def applyAppended (r : Node) (rpc : AppendEntries) : Node × Int :=
  if !rpc.entries.isEmpty || r.config.applyStale then raftApplyConfigFromLog r else (r, 0)

/-- The end of an accepted message: configuration, commit, and the reply. -/
def acceptAppend (r : Node) (rpc : AppendEntries) : Node × Int :=
  match applyAppended r rpc with
  | (r, 0) =>
    let committed := followCommit r rpc
    (replyAppend { committed with
      persistNeeded := committed.persistNeeded || !rpc.entries.isEmpty } rpc, 0)
  | (r, _) => (r, -1)

/-- The first index our log holds of a run of one term, going back from an
index. -/
def conflictFirst (log : Log) (term : Int) : Nat → Int → Int
  | 0, idx => idx
  | steps + 1, idx =>
    if log.lastIncludedIndex + 1 < idx && raftLogTermAt log (idx - 1) = term then
      conflictFirst log term steps (idx - 1)
    else idx

/-- The conflicting term and its first index, 0 and 0 when our log does not
reach the leader's previous entry. -/
def conflictHints (log : Log) (prevLogIndex : Int) : Int × Int :=
  if 0 < prevLogIndex && log.lastIncludedIndex < prevLogIndex &&
      prevLogIndex ≤ raftLogLastIndex log then
    let term := raftLogTermAt log prevLogIndex
    if 0 < term then (term, conflictFirst log term log.entries.length prevLogIndex) else (0, 0)
  else (0, 0)

def replyFail (r : Node) (rpc : AppendEntries) (rejectHint : Int) : Node :=
  let last := raftLogLastIndex r.log
  let hint := if 0 < rejectHint then rejectHint
    else if last < rpc.prevLogIndex then last + 1 else rpc.prevLogIndex
  let (conflictTerm, conflictFirstIndex) := conflictHints r.log rpc.prevLogIndex
  if r.persistNeeded || r.persistGen < r.termDirtyGen then
    { r with deferredReject := ⟨true, r.nextGen, hint, r.leaderId, last, conflictTerm,
        conflictFirstIndex, rpc.readContext⟩ }
  else sendMessage r r.leaderId (.appendEntriesResult
    ⟨r.currentTerm, hint, last, conflictTerm, conflictFirstIndex, rpc.readContext, false⟩)

/-- The check of the previous entry: `none` when it passes, else the hint of the
rejection. -/
def prevMismatch (log : Log) (rpc : AppendEntries) : Option Int :=
  if 0 < rpc.prevLogIndex then
    if raftLogLastIndex log < rpc.prevLogIndex then some 0
    else if rpc.prevLogIndex < log.lastIncludedIndex then some (log.lastIncludedIndex + 1)
    else if raftLogTermAt log rpc.prevLogIndex ≠ rpc.prevLogTerm then some 0
    else none
  else none

/-- The entries of a message meet the log of a follower. -/
def appendToLog (r : Node) (rpc : AppendEntries) : Node × Int :=
  match prevMismatch r.log rpc with
  | some hint => (replyFail r rpc hint, 0)
  | none =>
    match scanEntries r.log (rpc.prevLogIndex + 1) rpc.entries with
    | .malformed => (r, -1)
    | .belowBase => (replyFail r rpc (r.log.lastIncludedIndex + 1), 0)
    | .keep => acceptAppend r rpc
    | .splice cutTo new =>
      let r := cutFor r cutTo
      let r := { r with log := appendNew r.log new }
      if allInRange new then acceptAppend r rpc else (r, -1)

def raftRecvAppendEntries (r : Node) (sender : Int) (rpc : AppendEntries) : Node × Int :=
  if !raftIdValid sender || !raftIdValid rpc.leaderId || termOutOfRange rpc.term then (r, 0)
  else
    let r := adoptTerm r rpc.term rpc.leaderId
    if rpc.term < r.currentTerm then (r, 0)
    else if r.state = .leader then (r, 0)
    else appendToLog (followLeader r rpc.leaderId) rpc

/-- Where a binary search finds the first index whose term exceeds a term. -/
def firstAbove (log : Log) (term : Int) : Nat → Int → Int → Int
  | 0, a, _ => a
  | steps + 1, a, b =>
    if a < b then
      let mid := a + (b - a) / 2
      if term < raftLogTermAt log mid then firstAbove log term steps a mid
      else firstAbove log term steps (mid + 1) b
    else a

/-- The next index to try after a conflict: past our own entries of that term,
else past the follower's. -/
def conflictNext (log : Log) (conflictTerm conflictFirstIndex : Int) : Int :=
  let lo := log.lastIncludedIndex + 1
  let hi := raftLogLastIndex log
  let a := firstAbove log conflictTerm (log.entries.length + 1) lo (hi + 1)
  let next :=
    if lo < a && raftLogTermAt log (a - 1) = conflictTerm then a else conflictFirstIndex
  min next (hi + 1)

/-- A reply counts for the read round in progress, as contact, and moves the
peer's indexes. -/
def ackPeer (r : Node) (result : AppendEntriesResult) (peer : Peer) : Peer :=
  let inRound := result.success && result.readContext == r.readContext &&
    (!r.readIndexPending.isEmpty || !r.readBarriers.isEmpty) && r.readIndexHeartbeatSent &&
    !peer.isLearner
  let peer := { peer with readIndexAcked := peer.readIndexAcked || inRound }
  let peer := if peer.isLearner then peer else { peer with
    quorumAcked := true
    missedRounds := 0 }
  if result.success then
    let newMatch := min result.lastLogIndex (raftLogLastIndex r.log)
    if peer.matchIndex ≤ newMatch then { peer with
      matchIndex := newMatch
      nextIndex := newMatch + 1 } else peer
  else if 0 < result.conflictTerm && 0 < result.conflictFirstIndex then
    { peer with nextIndex := conflictNext r.log result.conflictTerm result.conflictFirstIndex }
  else if 0 < result.rejected then { peer with nextIndex := result.rejected }
  else if 1 < peer.nextIndex then { peer with nextIndex := peer.nextIndex - 1 }
  else peer

/-- A reply to the leader: a newer term deposes it, an older one is dropped. -/
def recvReply (r : Node) (sender term : Int) (handle : Peer → Node) : Node × Int :=
  if !raftIdValid sender then (r, 0)
  else if r.state ≠ .leader then (r, 0)
  else if termOutOfRange term then (r, 0)
  else if r.currentTerm < term then (raftStepDown r term 0, 0)
  else if term < r.currentTerm then (r, 0)
  else
    match raftFindPeer r sender with
    | none => (r, 0)
    | some peer => (handle peer, 0)

def raftRecvAppendEntriesResult (r : Node) (sender : Int) (result : AppendEntriesResult) :
    Node × Int :=
  recvReply r sender result.term (fun peer =>
    let acked := { r with peers := updatePeer r.peers sender (ackPeer r result) }
    if peer.isLearner then acked else raftAdvanceCommit acked)

/-! ## Snapshots -/

/-- A new stream forgets the old one; masks that are refused leave no stream. -/
def startSnapshotRecv (r : Node) (rpc : InstallSnapshot) : Node × Bool :=
  let fresh : Node := { r with
    snapshotRecv := ⟨rpc.snapshotLastIndex, rpc.snapshotLastTerm, rpc.snapshotDataSize, [], [], []⟩
    snapshotRecvExpectedOffset := 0
    snapshotInstallPending := false }
  let refused : Node := { fresh with snapshotRecv.lastIndex := 0 }
  let voters :=
    if rpc.snapshotCfgOld.isEmpty then some ([], [])
    else do some (← raftMakeSortedIds rpc.snapshotCfgOld, ← raftMakeSortedIds rpc.snapshotCfgNew)
  match voters with
  | none => (refused, false)
  | some (old, new) =>
    match raftMakeSortedIds rpc.snapshotCfgLearners with
    | none =>
      ({ refused with
          snapshotRecv.cfgOld := old
          snapshotRecv.cfgNew := new }, false)
    | some learners =>
      ({ fresh with
          snapshotRecv.cfgOld := old
          snapshotRecv.cfgNew := new
          snapshotRecv.cfgLearners := learners }, true)

/-- Takes the next chunk of the stream; the last one leaves the snapshot to be
persisted and installed. -/
def takeChunk (r : Node) (rpc : InstallSnapshot) : Node × Int :=
  if rpc.snapshotOffset ≠ r.snapshotRecvExpectedOffset then (r, 0)
  else if rpc.snapshotDone && rpc.snapshotOffset + rpc.snapshotChunkSize ≠ rpc.snapshotDataSize then
    (r, -1)
  else
    let r := { r with snapshotRecvExpectedOffset := rpc.snapshotOffset + rpc.snapshotChunkSize }
    if rpc.snapshotDone then
      ({ r with
          snapshotRecv := { r.snapshotRecv with
            lastIndex := rpc.snapshotLastIndex
            lastTerm := rpc.snapshotLastTerm
            size := rpc.snapshotDataSize }
          snapshotInstallPending := true
          persistNeeded := true }, 0)
    else (r, 0)

/-- A snapshot with another index or size than the one being received starts a
new stream. -/
def recvSnapshotChunk (r : Node) (rpc : InstallSnapshot) : Node × Int :=
  if r.snapshotRecv.lastIndex ≠ rpc.snapshotLastIndex ||
      r.snapshotRecv.size ≠ rpc.snapshotDataSize then
    match startSnapshotRecv r rpc with
    | (r, true) => takeChunk r rpc
    | (r, false) => (r, 0)
  else takeChunk r rpc

def followSnapshot (r : Node) (sender : Int) (rpc : InstallSnapshot) : Node :=
  { r with
    peers := updatePeer r.peers sender
      (fun peer => { peer with matchIndex := rpc.snapshotLastIndex }) }

def raftRecvInstallSnapshot (r : Node) (sender : Int) (rpc : InstallSnapshot) : Node × Int :=
  if !raftIdValid sender || !raftIdValid rpc.leaderId || termOutOfRange rpc.term then (r, 0)
  else if rpc.term < r.currentTerm || rpc.snapshotLastIndex < r.log.lastIncludedIndex then
    (sendMessage r sender (.installSnapshotResult ⟨r.currentTerm, r.log.lastIncludedIndex⟩), 0)
  else
    let r := adoptTerm r rpc.term rpc.leaderId
    if r.state = .leader then (r, 0)
    else recvSnapshotChunk (followSnapshot (followLeader r rpc.leaderId) sender rpc) rpc

def installAck (result : InstallSnapshotResult) (peer : Peer) : Peer :=
  let last := if result.lastIncludedIndex ≤ 0 then peer.pendingSnapshotLastIndex
    else result.lastIncludedIndex
  let peer := if peer.matchIndex ≤ last then { peer with
    matchIndex := last
    nextIndex := last + 1 } else peer
  let peer := { peer with pendingSnapshotOffset := 0 }
  if peer.isLearner then peer else { peer with
    quorumAcked := true
    missedRounds := 0 }

def raftRecvInstallSnapshotResult (r : Node) (sender : Int) (result : InstallSnapshotResult) :
    Node × Int :=
  recvReply r sender result.term (fun peer =>
    let acked := { r with peers := updatePeer r.peers sender (installAck result) }
    if peer.isLearner then acked else raftAdvanceCommit acked)

/-! ## Reads and transfer -/

/-- A new read round forgets every acknowledgement of the old one. -/
def raftReadRoundRestart (r : Node) : Node :=
  { r with
    readContext := nextContext r.readContext
    peers := r.peers.map (fun peer => { peer with readIndexAcked := false })
    readIndexHeartbeatSent := false }

/-- A request that is the only one of its kind starts a new round, any other
rides on the round in progress; either way a heartbeat is due. -/
def joinRound (r : Node) (waiting : Nat) : Node :=
  let joined := if waiting = 1 then raftReadRoundRestart r else r
  { joined with timers.heartbeatElapsed := r.cfg.heartbeatMs }

/-- A leader that is in neither configuration must not serve reads. -/
def Node.mayServeReads (r : Node) : Bool := r.selfIn true || r.selfIn false

def raftRecvReadIndex (r : Node) (sender : Int) (rpc : ReadIndexReq) : Node × Int :=
  if !raftIdValid sender || r.state ≠ .leader || rpc.term < r.currentTerm then (r, 0)
  else if r.currentTerm < rpc.term then
    if termOutOfRange rpc.term then (r, 0) else (raftStepDown r rpc.term 0, 0)
  else if !r.mayServeReads then (r, 0)
  else
    (joinRound { r with readIndexPending := r.readIndexPending ++ [⟨sender, rpc.context⟩] }
      (r.readIndexPending.length + 1), 0)

/-- The answer to the round in flight turns its cookies into barriers. -/
def resolveFrozen (r : Node) (readIndex : Int) : Node :=
  let batch := r.followerRead.pending.take r.followerRead.frozen
  let kept := r.followerRead.pending.drop r.followerRead.frozen
  { r with
    readBarriers := r.readBarriers ++ batch.map (fun cookie => ⟨cookie, readIndex, 0⟩)
    followerRead := { r.followerRead with
      pending := kept
      frozen := 0
      elapsed := 0
      waiting := r.followerRead.waiting || !kept.isEmpty } }

def raftRecvReadIndexResult (r : Node) (sender : Int) (result : ReadIndexResult) : Node × Int :=
  if !raftIdValid sender || r.followerRead.frozen = 0 ||
      result.context ≠ r.followerRead.context || termOutOfRange result.term then (r, 0)
  else if r.currentTerm < result.term then (raftStepDown r result.term 0, 0)
  else if result.term < r.currentTerm then (r, 0)
  else (resolveFrozen r result.readIndex, 0)

def raftRecvTimeoutNow (r : Node) (sender : Int) (rpc : TimeoutNow) : Node × Int :=
  if !raftIdValid sender || termOutOfRange rpc.term || rpc.term < r.currentTerm then (r, 0)
  else
    let r := adoptTerm r rpc.term rpc.leaderId
    let last := raftLogLastIndex r.log
    if r.state = .follower && rpc.leaderId = r.leaderId && last = rpc.lastLogIndex &&
        raftLogTermAt r.log last = rpc.lastLogTerm then raftBecomeCandidate r
    else (r, 0)

def raftRecvfromPeer (r : Node) (msg : PeerMessage) : Node × Int :=
  if r.phase = .stopped then (r, 0)
  else
    match msg.rpc with
    | .requestVote rpc => raftRecvRequestVote r msg.sender rpc
    | .requestVoteResult result => raftRecvRequestVoteResult r msg.sender result
    | .appendEntries rpc => raftRecvAppendEntries r msg.sender rpc
    | .appendEntriesResult result => raftRecvAppendEntriesResult r msg.sender result
    | .installSnapshot rpc => raftRecvInstallSnapshot r msg.sender rpc
    | .installSnapshotResult result => raftRecvInstallSnapshotResult r msg.sender result
    | .readIndex rpc => raftRecvReadIndex r msg.sender rpc
    | .readIndexResult result => raftRecvReadIndexResult r msg.sender result
    | .timeoutNow rpc => raftRecvTimeoutNow r msg.sender rpc

end Kynovo.Raft
