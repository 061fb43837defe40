import Kynovo.Raft.Config

/-! The leader's work: commit, membership changes with their catch-up, message
queueing and the tick. The tick is cut into the stages the source runs in order;
a stage that ends the tick early says so. -/
namespace Kynovo.Raft

/-! ## Commit -/

/-- The leader counts itself for an index once it is durable; without voting
peers it does not wait for its own disk. -/
def selfCounts (r : Node) (idx : Int) (oldConfigOnly : Bool) : Bool :=
  r.selfIn oldConfigOnly && (!raftHasVoterPeer r || decide (idx ≤ r.durableIndex))

def commitReached (r : Node) (idx : Int) : Bool :=
  quorumReached r (fun oldConfigOnly =>
    (selfCounts r idx oldConfigOnly).toNat + raftCountMatch r idx oldConfigOnly)

/-- Walks the indexes above the commit index: entries of older terms are passed
over, the first entry of this term without a quorum ends the walk. -/
def advanceCommitFrom (r : Node) : Nat → Int → Node
  | 0, _ => r
  | steps + 1, idx =>
    if raftLogTermAt r.log idx ≠ r.currentTerm then advanceCommitFrom r steps (idx + 1)
    else if commitReached r idx then
      advanceCommitFrom { r with
        commitIndex := idx
        leadershipConfirmed := true } steps (idx + 1)
    else r

def raftAdvanceCommit (r : Node) : Node :=
  advanceCommitFrom r (raftLogLastIndex r.log - r.commitIndex).toNat (r.commitIndex + 1)

/-! ## Membership changes -/

/-- A promoted learner ends its catch-up with a result. -/
def finishPromoted (r : Node) (id : Int) : Node :=
  if id = r.cfg.id then r
  else
    match raftFindPeer r id with
    | none => r
    | some peer =>
      if peer.isLearner && peer.catchupCookie ≠ 0 && 0 ≤ peer.catchupRound then
        let r := raftResultEmit r peer.catchupCookie .catchupReady
        { r with peers := updatePeer r.peers id (fun peer => { peer with catchupRound := -1 }) }
      else r

/-- Appends the pending change to the log. -/
def addChange (r : Node) : Node :=
  { r with
    config.index := raftLogLastIndex r.log + 1
    log := raftLogAppend r.log
      (configEntry r.currentTerm r.config.pendingOld r.config.pendingNew r.config.pendingLearners) }

def raftCommitConfigEntry (r : Node) (cookie : Nat) : Node × Int :=
  let promoted := r.config.pendingNew.foldl finishPromoted (addChange r)
  match raftApplyConfigFromLog promoted with
  | (applied, 0) =>
    ({ applied with
        persistNeeded := true
        clientPending := applied.clientPending ++ [⟨cookie, raftLogLastIndex r.log + 1⟩] }, 0)
  | (refused, _) =>
    (raftConfigPendingOnlyClear (raftLogCut refused (raftLogLastIndex r.log)), -1)

def raftNewServersCaughtUp (r : Node) (old new : List Int) (targetIndex : Int) : Bool :=
  !old.isEmpty && !new.isEmpty && new.all (fun id =>
    raftMaskHas old id || id == r.cfg.id ||
      (raftFindPeer r id).any (fun peer => decide (targetIndex ≤ peer.matchIndex)))

/-- New servers become peers outside both configurations, so that they are sent
entries. -/
def raftEnsureCatchupPeers (r : Node) (new : List Int) : Node :=
  let missing := new.filter (fun id =>
    id != r.cfg.id && !r.peers.any (fun peer => peer.id == id))
  { r with
    peers := r.peers ++ missing.map (fun id => { id, nextIndex := raftLogLastIndex r.log + 1 }) }

def raftDeferredCatchupAbort (r : Node) : Node :=
  { raftResultEmit r r.catchup.cookie .catchupFailed with catchup := Catchup.none }

/-- Records the change that is about to be appended. -/
def setPending (r : Node) (new learners : List Int) : Node :=
  { r with config := { r.config with
      pendingOld := r.config.old
      pending := true
      pendingNew := new
      pendingLearners := learners } }

def raftMaybeAdvanceReconfig (r : Node) : Node × Int :=
  if r.state ≠ .leader || !r.catchup.active then (r, 0)
  else
    match raftMakeSortedIds r.catchup.new, raftMakeSortedIds r.config.learners with
    | some new, some learners =>
      match raftCommitConfigEntry (setPending r new learners) r.catchup.cookie with
      | (r, 0) => ({ r with catchup := Catchup.none }, 0)
      | refused => refused
    | some _, none =>
      ({ r with config := { r.config with
          pendingOld := []
          pendingNew := []
          pending := false } }, -1)
    | none, _ => (r, -1)

/-- Cancels a change that was never appended and retires one that committed; a
change that is still pending afterwards refuses the next. -/
def admitChange (r : Node) : Node :=
  let r := if r.config.pending && r.config.index = 0 then raftConfigPendingClear r else r
  raftConfigZombieClear r

def raftReconfig (r : Node) (cookie : Nat) (ids : List Int) : Node × Int :=
  if cookie = 0 || r.phase ≠ .running || r.state ≠ .leader || raftIdValid r.transfer.target ||
      r.config.joint || r.catchup.active then (r, -1)
  else
    match raftMakeSortedIds ids with
    | none => (r, -1)
    | some new =>
      if new = r.config.old then (raftResultEmit r cookie .committed, 0)
      else
        let caughtUp := raftNewServersCaughtUp r r.config.old new (raftLogLastIndex r.log)
        let r := admitChange r
        if r.config.pending && 0 < r.config.index then (r, -1)
        else if caughtUp then
          match raftMakeSortedIds r.config.learners with
          | none => (raftConfigPendingClear r, -1)
          | some learners => raftCommitConfigEntry (setPending r new learners) cookie
        else
          ({ raftEnsureCatchupPeers r new with
              catchup := ⟨new, cookie, true, 0, 0, 0, 0⟩
              timers := { r.timers with heartbeatElapsed := r.cfg.heartbeatMs } }, 0)

/-! ## Append queueing -/

/-- Asks the caller for the next piece of the snapshot; a request that is
already queued for the follower is replaced. -/
def queueSnapRead (reads : List SnapshotReadReq) (req : SnapshotReadReq) : List SnapshotReadReq :=
  if reads.any (fun old => old.followerId == req.followerId) then
    reads.map (fun old => if old.followerId = req.followerId then req else old)
  else reads ++ [req]

/-- How many entries go into one message: never past the end of a chunk. -/
def appendCount (log : Log) (nextIndex : Int) : Nat :=
  min (raftLogLastIndex log - nextIndex + 1).toNat
    (log.chunkSize - log.offset nextIndex % log.chunkSize)

def appendMessage (r : Node) (peer : Peer) : AppendEntries :=
  { term := r.currentTerm
    prevLogIndex := peer.nextIndex - 1
    prevLogTerm := raftLogTermAt r.log (peer.nextIndex - 1)
    leaderCommit := r.commitIndex
    readContext := r.readContext
    entries := (r.log.entries.drop (r.log.offset peer.nextIndex)).take
      (appendCount r.log peer.nextIndex)
    leaderId := r.cfg.id }

/-- Queues a message for the peer at a position of the list, or a snapshot read
when the peer needs entries that are compacted. -/
def raftQueueAppendEntries (r : Node) (position : Nat) : Node :=
  match r.peers[position]? with
  | none => r
  | some peer =>
    if peer.nextIndex ≤ r.log.lastIncludedIndex then
      if r.snapshot.size ≤ 0 then r
      else
        let peer := { peer with
          pendingSnapshotOffset :=
            if r.snapshot.size ≤ peer.pendingSnapshotOffset then 0 else peer.pendingSnapshotOffset
          pendingSnapshotLastIndex := r.snapshot.lastIndex }
        { r with
          peers := r.peers.set position peer
          snapReads := queueSnapRead r.snapReads ⟨peer.id, r.log.lastIncludedIndex,
            peer.pendingSnapshotOffset, r.cfg.snapshotChunkSize⟩ }
    else
      let rpc := appendMessage r peer
      let peer := { peer with
        pendingSnapshotOffset := min peer.pendingSnapshotOffset 0 }
      sendMessage { r with peers := r.peers.set position peer } peer.id (.appendEntries rpc)

/-! ## The leader's tick -/

/-- Ten election timeouts without an end abort a catch-up or a stuck joint
configuration. -/
def tooLong (r : Node) (elapsed : Nat) : Bool := decide (r.cfg.electionMinMs * 10 ≤ elapsed)

/-- One round of a deferred reconfiguration; `true` ends the tick. -/
def catchupRound (r : Node) (elapsedMs : Nat) : Node × Bool :=
  if r.catchup.round = 0 then
    ({ r with catchup := { r.catchup with
        round := 1
        startIndex := raftLogLastIndex r.log
        elapsed := 0 } }, false)
  else if raftNewServersCaughtUp r r.config.old r.catchup.new r.catchup.startIndex then
    if raftCatchupRounds ≤ r.catchup.round then
      if r.catchup.elapsed < r.cfg.electionMinMs then
        match raftMaybeAdvanceReconfig r with
        | (r, 0) => (r, false)
        | (r, _) => (r, true)
      else (raftDeferredCatchupAbort r, false)
    else
      ({ r with catchup := { r.catchup with
          round := r.catchup.round + 1
          startIndex := raftLogLastIndex r.log
          elapsed := 0 } }, false)
  else ({ r with catchup.elapsed := raftElapsedAdd r.catchup.elapsed elapsedMs }, false)

def tickCatchup (r : Node) (elapsedMs : Nat) : Node × Bool :=
  if !r.catchup.active then (r, false)
  else
    match catchupRound { r with
        catchup.totalElapsed := raftElapsedAdd r.catchup.totalElapsed elapsedMs } elapsedMs with
    | (r, true) => (r, true)
    | (r, false) =>
      if r.catchup.active && tooLong r r.catchup.totalElapsed then
        (raftDeferredCatchupAbort r, false)
      else (r, false)

/-- A joint entry of this leader's own term that no peer acknowledged in time is
given up. -/
def jointAbortDue (r : Node) (elapsedMs : Nat) : Bool :=
  r.config.joint && r.config.pending && decide (r.commitIndex < r.config.index) &&
    tooLong r (raftElapsedAdd r.timers.jointElapsed elapsedMs) &&
    !r.peers.any (fun peer => decide (r.config.index ≤ peer.matchIndex)) &&
    decide (raftLogTermAt r.log r.config.index = r.currentTerm)

/-- Clients of the joint entry and of what follows it have failed; they are the
end of the list. -/
def failAbandoned (r : Node) : Node :=
  let kept := r.clientPending.takeWhile (fun item => decide (item.logIndex < r.config.index))
  let abandoned := r.clientPending.drop kept.length
  { emitResults r (abandoned.map ClientPending.cookie) .failed with clientPending := kept }

def leaveTerm (r : Node) : Node :=
  { untrackChange r with
    catchup := Catchup.none
    timers := { r.timers with jointElapsed := 0 }
    persistNeeded := true
    currentTerm := if r.currentTerm < termMax then r.currentTerm + 1 else r.currentTerm
    votedFor := 0 }

/-- Cuts the joint entry and all that follows it; the term is left for good, so
that no entry is written again under the same index and term. -/
def abortJoint (r : Node) : Node :=
  let left := leaveTerm (raftLogCut (failAbandoned r) (r.config.index - 1))
  (raftApplyConfigFromLog (raftStepDown left left.currentTerm 0)).1

/-- The time an uncommitted joint configuration has been pending. -/
def tickJointElapsed (r : Node) (elapsedMs : Nat) : Node :=
  if r.config.joint && r.config.pending && r.commitIndex < r.config.index then
    let elapsed := raftElapsedAdd r.timers.jointElapsed elapsedMs
    { r with timers.jointElapsed := if tooLong r elapsed then 0 else elapsed }
  else { r with timers.jointElapsed := 0 }

/-- Contact with a quorum holds the election timer back. -/
def contactReached (r : Node) : Bool :=
  quorumReached r (fun oldConfigOnly => (r.selfIn oldConfigOnly).toNat +
    r.peers.countP (fun peer => (peer.quorumAcked || decide (0 < peer.pendingSnapshotOffset)) &&
      peer.inConfig oldConfigOnly))

/-- A quorum has acknowledged the current read round. -/
def readRoundReached (r : Node) : Bool :=
  quorumReached r (fun oldConfigOnly => (r.selfIn oldConfigOnly).toNat +
    countPeers r oldConfigOnly Peer.readIndexAcked)

def tickContact (r : Node) : Node :=
  if contactReached r then { r with timers.electionElapsed := 0 } else r

def tickReadRound (r : Node) : Node :=
  if !r.readBarriers.isEmpty && readRoundReached r then
    { r with readBarrierGen := wrap32 (r.readBarrierGen + 1) }
  else r

def isAppend (message : PeerMessage) : Bool :=
  match message.rpc with
  | .appendEntries _ => true
  | _ => false

def heartbeatPeer (peer : Peer) : Peer :=
  { peer with
    missedRounds := if peer.quorumAcked then 0 else wrap32 (peer.missedRounds + 1)
    quorumAcked := false }

def startHeartbeat (r : Node) : Node :=
  { r with
    timers.heartbeatElapsed := 0
    peers := r.peers.map heartbeatPeer
    msgs := r.msgs.filter (fun message => !isAppend message) }

/-- A heartbeat sends every peer what it lacks; older append messages that the
caller has not taken yet are superseded. -/
def tickHeartbeat (r : Node) : Node :=
  if r.cfg.heartbeatMs ≤ r.timers.heartbeatElapsed ||
      (!r.readBarriers.isEmpty && !r.leadershipConfirmed) then
    { (List.range r.peers.length).foldl raftQueueAppendEntries (startHeartbeat r) with
      readIndexHeartbeatSent := true }
  else r

/-- Answers the followers' read requests with the commit index of this moment. -/
def tickReadIndex (r : Node) : Node :=
  if !r.readIndexPending.isEmpty && readRoundReached r && r.leadershipConfirmed then
    { r with
      msgs := r.msgs ++ r.readIndexPending.map (fun item => ⟨r.cfg.id, item.sender,
        .readIndexResult ⟨r.currentTerm, r.commitIndex, item.context⟩⟩)
      readIndexPending := []
      readIndexHeartbeatSent := false }
  else r

/-- One round of a learner's catch-up. -/
def tickLearner (elapsedMs : Nat) (r : Node) (position : Nat) : Node :=
  match r.peers[position]? with
  | none => r
  | some peer =>
    let put := fun (r : Node) (peer : Peer) => { r with peers := r.peers.set position peer }
    if !peer.isLearner || peer.catchupRound < 0 then r
    else if peer.catchupRound = 0 then
      put r { peer with
        catchupRound := 1
        catchupRoundStartIndex := raftLogLastIndex r.log
        catchupRoundElapsed := 0 }
    else if peer.catchupRoundStartIndex ≤ peer.matchIndex then
      if raftCatchupRounds ≤ peer.catchupRound then
        if peer.catchupRoundElapsed < r.cfg.electionMinMs then
          put (raftResultEmit r peer.catchupCookie .catchupReady) { peer with catchupRound := -1 }
        else
          put (raftResultEmit r peer.catchupCookie .catchupFailed) { peer with catchupRound := -2 }
      else
        put r { peer with
          catchupRound := peer.catchupRound + 1
          catchupRoundStartIndex := raftLogLastIndex r.log
          catchupRoundElapsed := 0 }
    else put r { peer with
      catchupRoundElapsed := raftElapsedAdd peer.catchupRoundElapsed elapsedMs }

/-- The end of the tick, after commit and joint configuration are settled. -/
def tickSend (r : Node) (elapsedMs : Nat) : Node :=
  let r := tickReadIndex (tickHeartbeat r)
  (List.range r.peers.length).foldl (tickLearner elapsedMs) r

/-- The tick after a joint configuration was not given up. -/
def tickLead (r : Node) (elapsedMs : Nat) : Node :=
  let r := tickReadRound (tickContact (tickJointElapsed r elapsedMs))
  if r.timers.electionDeadline ≤ r.timers.electionElapsed then raftStepDown r r.currentTerm 0
  else
    match raftMaybeFinalizeJoint (raftAdvanceCommit r) with
    | (r, 0) => tickSend r elapsedMs
    | (r, _) => r

def raftLeaderTick (r : Node) (elapsedMs : Nat) : Node :=
  match tickCatchup r elapsedMs with
  | (r, true) => r
  | (r, false) => if jointAbortDue r elapsedMs then abortJoint r else tickLead r elapsedMs

end Kynovo.Raft
