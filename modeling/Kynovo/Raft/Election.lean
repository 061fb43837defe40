import Kynovo.Raft.Log

/-! Step-down, election timers and candidacy. Every term change marks the
generation of the persist that will carry it; candidacy is asked for only after
a pre-vote majority. -/
namespace Kynovo.Raft

/-- The generation a persist completion reaches next. -/
def Node.nextGen (r : Node) : Nat := wrap32 (r.persistGen + 1)

/-- The fields a step-down resets, without the results it reports. -/
def stepDownFields (r : Node) (term newLeaderId : Int) : Node :=
  let r := raftConfigPendingClear r
  { r with
    currentTerm := term
    persistNeeded := true
    termDirtyGen := r.nextGen
    state := .follower
    votedFor := 0
    leaderId := newLeaderId
    inPreVote := false
    transfer := ⟨0, 0, 0⟩
    leadershipConfirmed := false
    deferredVote := { r.deferredVote with response := false }
    deferredVoteRequest := { r.deferredVoteRequest with pending := false }
    deferredAppend := { r.deferredAppend with response := false }
    snapshotPendingDirty := false
    snapshotDataReadyFlag := false
    snapshotInstallPending := false
    snapshotRecvExpectedOffset := 0
    snapshotRecv := { r.snapshotRecv with lastIndex := 0 }
    followerRead := { r.followerRead with elapsed := 0 }
    readIndexPending := []
    readIndexHeartbeatSent := false
    timers := { r.timers with
      leaderContactElapsed := 0
      electionElapsed := 0
      jointElapsed := 0 }
    peers := r.peers.map (fun peer => { peer with
      vote := false
      quorumAcked := false
      readIndexAcked := false }) }

/-- Pending clients are redirected, the initiator of a transfer and of a
reconfiguration that still waits included. -/
def raftStepDown (r : Node) (term newLeaderId : Int) : Node :=
  if termOutOfRange term then r
  else
    let initiators :=
      [r.transfer.cookie, if r.catchup.active then r.catchup.cookie else 0].filter (· ≠ 0)
    let flushed := raftFlushClientResults (stepDownFields r term newLeaderId) .redirect
    emitResults { flushed with readBarrierGen := 0 } initiators .redirect

/-! ## Election -/

def raftRngStep (rng : UInt32) : UInt32 :=
  let x := if rng = 0 then 2463534242 else rng
  let x := x ^^^ (x <<< 13)
  let x := x ^^^ (x >>> 17)
  x ^^^ (x <<< 5)

def raftResetElectionDeadline (cfg : Settings) (timers : Timers) : Timers :=
  let range := cfg.electionMaxMs - cfg.electionMinMs
  let rng := raftRngStep timers.rng
  let x := rng ^^^ (UInt32.ofInt cfg.id * 2654435761)
  { timers with
    rng := rng
    electionDeadline := cfg.electionMinMs + x.toNat % (range + 1) }

/-- The vote request every voting peer is sent. -/
def voteRequest (r : Node) (preVote : Bool) : RequestVote :=
  let last := raftLogLastIndex r.log
  { term := r.currentTerm
    lastLogIndex := last
    lastLogTerm := raftLogTermAt r.log last
    candidateId := r.cfg.id
    preVote := preVote }

def raftBroadcastVote (r : Node) (preVote : Bool) : Node :=
  { r with
    msgs := r.msgs ++ (r.peers.filter (fun peer => !peer.isLearner)).map
      (fun peer => ⟨r.cfg.id, peer.id, .requestVote (voteRequest r preVote)⟩) }

/-- The term bump with the vote for itself. -/
def candidateFields (r : Node) : Node :=
  { r with
    state := .candidate
    currentTerm := r.currentTerm + 1
    votedFor := r.cfg.id
    deferredVote := { r.deferredVote with
      response := false
      target := 0 }
    persistNeeded := true
    termDirtyGen := r.nextGen
    leaderId := 0
    inPreVote := false
    timers := raftResetElectionDeadline r.cfg { r.timers with electionElapsed := 0 }
    peers := r.peers.map (fun peer => { peer with
      vote := false
      preVoteAcked := false }) }

/-- A node without voting peers leads at once. -/
def leadAlone (r : Node) : Node :=
  let log := raftLogAppend r.log (noopEntry r.currentTerm)
  { r with
    log := log
    state := .leader
    leaderId := r.cfg.id
    persistNeeded := true
    timers := { r.timers with
      heartbeatElapsed := 0
      leaderContactElapsed := 0 }
    peers := r.peers.map (fun peer => { peer with
      nextIndex := raftLogLastIndex log + 1
      matchIndex := 0
      missedRounds := 0 }) }

def raftBecomeCandidate (r : Node) : Node × Int :=
  if raftIsLearner r.config.learners r.cfg.id then (r, -1)
  else if termMax ≤ r.currentTerm then (r, -1)
  else
    let r := candidateFields r
    if !raftHasVoterPeer r then (leadAlone r, 0)
    else ({ r with deferredVoteRequest := ⟨true, r.nextGen⟩ }, 0)

/-- A new pre-vote round supersedes a vote broadcast that still waits. -/
def preVoteFields (r : Node) : Node :=
  { r with
    inPreVote := true
    timers := raftResetElectionDeadline r.cfg { r.timers with electionElapsed := 0 }
    deferredVoteRequest := { r.deferredVoteRequest with pending := false }
    peers := r.peers.map (fun peer => { peer with preVoteAcked := false }) }

def raftStartPreVote (r : Node) : Node × Int :=
  let r := preVoteFields r
  if !raftHasVoterPeer r then
    if raftMaskHas r.config.old r.cfg.id then raftBecomeCandidate r else (r, 0)
  else (raftBroadcastVote r true, 0)

end Kynovo.Raft
