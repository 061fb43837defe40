import Kynovo.Lib.Runs
import Kynovo.Raft.Run

/-! Candidacies that find no memory. A node without voting peers appends the first entry of its
term as it takes office; when that entry cannot be allocated, `raft_become_candidate` goes back to
the term before. The handlers that end in a candidacy are those of the other modules with the
candidacy as a parameter. -/
namespace Kynovo.Raft.Starved

/-- `raft_become_candidate`, with or without memory. -/
abbrev Candidacy := Node → Node × Int

/-- The rollback of a term bump. The deferred vote is not given back. -/
def rolledBack (r : Node) : Node :=
  { r with
    currentTerm := r.currentTerm - 1
    votedFor := 0
    state := .follower }

def starvedCandidate : Candidacy := fun r =>
  if raftIsLearner r.config.learners r.cfg.id then (r, -1)
  else if termMax ≤ r.currentTerm then (r, -1)
  else
    let r := candidateFields r
    if !raftHasVoterPeer r then (rolledBack r, -1)
    else ({ r with deferredVoteRequest := ⟨true, r.nextGen⟩ }, 0)

def candidacy (starved : Bool) : Candidacy := if starved then starvedCandidate else raftBecomeCandidate

/-! ## The handlers -/

def startPreVote (stand : Candidacy) (r : Node) : Node × Int :=
  let r := preVoteFields r
  if !raftHasVoterPeer r then
    if raftMaskHas r.config.old r.cfg.id then stand r else (r, 0)
  else (raftBroadcastVote r true, 0)

/-- The result of the candidacy is not looked at. -/
def countPreVote (stand : Candidacy) (r : Node) : Node :=
  if votesReached r true then (stand { r with inPreVote := false }).1 else r

def recvRequestVoteResult (stand : Candidacy) (r : Node) (sender : Int) (result : RequestVoteResult) :
    Node × Int :=
  if !raftIdValid sender then (r, 0)
  else if !r.inPreVote && r.state ≠ .candidate then (r, 0)
  else if r.currentTerm < result.term then (raftStepDown r result.term 0, 0)
  else if result.term < r.currentTerm then (r, 0)
  else if (raftFindPeer r sender).isNone then (r, 0)
  else if result.preVote then
    if r.inPreVote then (countPreVote stand (markVote r sender result.voteGranted true), 0) else (r, 0)
  else if r.state ≠ .candidate then (r, 0)
  else (countVote (markVote r sender result.voteGranted false), 0)

def recvTimeoutNow (stand : Candidacy) (r : Node) (sender : Int) (rpc : TimeoutNow) : Node × Int :=
  if !raftIdValid sender || termOutOfRange rpc.term || rpc.term < r.currentTerm then (r, 0)
  else
    let r := adoptTerm r rpc.term rpc.leaderId
    let last := raftLogLastIndex r.log
    if r.state = .follower && rpc.leaderId = r.leaderId && last = rpc.lastLogIndex &&
        raftLogTermAt r.log last = rpc.lastLogTerm then stand r
    else (r, 0)

def recvfromPeer (stand : Candidacy) (r : Node) (msg : PeerMessage) : Node × Int :=
  if r.phase = .stopped then (r, 0)
  else
    match msg.rpc with
    | .requestVoteResult result => recvRequestVoteResult stand r msg.sender result
    | .timeoutNow rpc => recvTimeoutNow stand r msg.sender rpc
    | _ => raftRecvfromPeer r msg

def campaign (stand : Candidacy) (r : Node) : Node × Int :=
  if r.state ≠ .leader && r.timers.electionDeadline ≤ r.timers.electionElapsed then
    startPreVote stand r
  else (r, 0)

def advanceInner (stand : Candidacy) (r : Node) (elapsedMs : Nat) : Node :=
  match reapplyStale r with
  | (r, 0) =>
    match campaign stand r with
    | (r, 0) => raftCheckBarriers (raftEnqueueApply (tickIfLeader r elapsedMs))
    | (r, _) => r
  | (r, _) => r

def advance (stand : Candidacy) (r : Node) (elapsedMs : Nat) : Node × Ready :=
  let r := enterPhase r
  match r.phase with
  | .draining => advanceDrain r elapsedMs
  | .stopped => (r, stoppedReady)
  | _ => advanceOutput (advanceInner stand (advanceReplies r elapsedMs) elapsedMs) false

def drive (stand : Candidacy) (run : Run) (elapsedMs : Nat) : Run :=
  let advanced := advance stand run.node elapsedMs
  let handed := advanced.2.persist.toList
  { run with
    node := raftReadyConsumed advanced.1
    inflight := run.inflight ++
      handed.map (fun view => ⟨view, skipsNothing advanced.1 run.emitted view⟩)
    emitted := run.emitted ++ handed
    released := run.released ++ advanced.2.msgs }

/-- A call, and whether a candidacy in it finds no memory. -/
abbrev Event := Op × Bool

def step (run : Run) : Event → Run
  | (.recvPeer msg, starved) => { run with node := (recvfromPeer (candidacy starved) run.node msg).1 }
  | (.advance elapsedMs, starved) => drive (candidacy starved) run elapsedMs
  | (op, _) => run.step op

theorem recvfromPeer_plain (r : Node) (msg : PeerMessage) :
    recvfromPeer raftBecomeCandidate r msg = raftRecvfromPeer r msg := by
  unfold recvfromPeer
  split
  · rename_i stopped
    rw [raftRecvfromPeer, if_pos stopped]
  · rename_i open_
    split
    · rename_i shape
      rw [raftRecvfromPeer, if_neg open_, shape]
      rfl
    · rename_i shape
      rw [raftRecvfromPeer, if_neg open_, shape]
      rfl
    · rfl

/-- With memory the steps are those of the plain runs. -/
theorem step_plain (run : Run) (op : Op) : step run (op, false) = run.step op := by
  cases op with
  | recvPeer msg =>
    show { run with node := (recvfromPeer raftBecomeCandidate run.node msg).1 } = _
    rw [recvfromPeer_plain]
    rfl
  | _ => rfl

end Kynovo.Raft.Starved
