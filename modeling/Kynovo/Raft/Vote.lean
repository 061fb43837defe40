import Kynovo.Raft.NodeEdits
import Kynovo.Raft.Starved

/-! One vote a term. A vote that was cast stands as long as the term does, and the
term never goes back. Every handler keeps to this except a step-down that does not
take a newer term and a candidacy that is rolled back: they clear the vote, and
another candidate of the same term may then be granted it. -/
namespace Kynovo.Raft.Vote
open Kynovo.Raft.Frame
open Kynovo.Raft.NodeEdits
open Kynovo.Raft.Starved (Candidacy Event candidacy starvedCandidate rolledBack step startPreVote
  recvRequestVoteResult recvTimeoutNow recvfromPeer advanceInner advance)

/-- The term does not go back, and within it a vote that was cast stands. -/
structure VoteKept (r r' : Node) : Prop where
  term : r.currentTerm ≤ r'.currentTerm
  vote : r'.currentTerm = r.currentTerm → r.votedFor ≠ 0 → r'.votedFor = r.votedFor

variable {r r' : Node}

theorem VoteKept.of_same (term : r'.currentTerm = r.currentTerm) (vote : r'.votedFor = r.votedFor) :
    VoteKept r r' := ⟨term.ge, fun _ _ => vote⟩

theorem VoteKept.refl (r : Node) : VoteKept r r := .of_same rfl rfl

theorem VoteKept.trans {a b c : Node} (first : VoteKept a b) (second : VoteKept b c) :
    VoteKept a c where
  term := first.term.trans second.term
  vote := fun same cast => by
    have middle : b.currentTerm = a.currentTerm :=
      le_antisymm (same ▸ second.term) first.term
    have kept := first.vote middle cast
    exact (second.vote (same.trans middle.symm) (kept ▸ cast)).trans kept

/-- A step from a state with the same term and vote. -/
theorem VoteKept.after {a b c : Node} (step : VoteKept b c) (term : b.currentTerm = a.currentTerm)
    (vote : b.votedFor = a.votedFor) : VoteKept a c := (VoteKept.of_same term vote).trans step

theorem VoteKept.of_quiet (quiet : Quiet r r') : VoteKept r r' := .of_same quiet.term quiet.vote

theorem VoteKept.of_calm (calm : Calm r r') : VoteKept r r' :=
  .of_same calm.currentTerm calm.votedFor

/-- Edits of the log alone leave term and vote in place. -/
theorem VoteKept.of_edits {cuts : Int → Prop} (edits : Edits cuts .still r r') : VoteKept r r' :=
  .of_quiet edits.quiet

/-! ## Elections -/

/-- The candidacy goes back to the term before when its first entry finds no memory. -/
def rollsBack (r : Node) : Bool :=
  !raftIsLearner r.config.learners r.cfg.id && decide (r.currentTerm < termMax) &&
    !raftHasVoterPeer (candidateFields r)

variable {stand : Candidacy}

/-- The node as its candidacy finds it, when the election timeout makes it stand. -/
def deadlineStands (r : Node) : Option Node :=
  let node := preVoteFields r
  if r.state ≠ .leader && r.timers.electionDeadline ≤ r.timers.electionElapsed &&
      !raftHasVoterPeer node && raftMaskHas node.config.old node.cfg.id then some node else none

/-- The node as its candidacy finds it, when this answer completes a quorum of pre-votes. -/
def preVoteStands (r : Node) (sender : Int) (result : RequestVoteResult) : Option Node :=
  let marked := markVote r sender result.voteGranted true
  if raftIdValid sender && result.term = r.currentTerm && (raftFindPeer r sender).isSome &&
      result.preVote && r.inPreVote && votesReached marked true then
    some { marked with inPreVote := false }
  else none

/-- The node as its candidacy finds it, when the leader tells it to stand. -/
def timeoutStands (r : Node) (sender : Int) (rpc : TimeoutNow) : Option Node :=
  let node := adoptTerm r rpc.term rpc.leaderId
  let last := raftLogLastIndex node.log
  if !(!raftIdValid sender || termOutOfRange rpc.term || rpc.term < r.currentTerm) &&
      (node.state = .follower && rpc.leaderId = node.leaderId && last = rpc.lastLogIndex &&
        raftLogTermAt node.log last = rpc.lastLogTerm) then some node
  else none

/-- The node as a candidacy of the call finds it. -/
def peerStands (r : Node) (msg : PeerMessage) : Option Node :=
  match msg.rpc with
  | .requestVoteResult result => preVoteStands r msg.sender result
  | .timeoutNow rpc => timeoutStands r msg.sender rpc
  | _ => none

/-- The leader gives up its office without a newer term: contact with a quorum is
lost, or a joint configuration is given up with no term left. -/
def leavesOffice (r : Node) (elapsedMs : Nat) : Bool :=
  match tickCatchup r elapsedMs with
  | (_, true) => false
  | (r, false) =>
    if jointAbortDue r elapsedMs then decide (termMax ≤ r.currentTerm)
    else
      let ticked := tickReadRound (tickContact (tickJointElapsed r elapsedMs))
      decide (ticked.timers.electionDeadline ≤ ticked.timers.electionElapsed)

/-- The state in which `raft_advance` runs the leader's tick, if it gets there. -/
def tickStateOf (stand : Candidacy) (r : Node) : Option Node :=
  (campaignState r).bind (fun r =>
    match Starved.campaign stand r with
    | (r, 0) => if r.state = .leader then some r else none
    | (_, _) => none)

/-- The node that `raft_advance` times and lets stand, unless it drains or has stopped. -/
def runningState (r : Node) (elapsedMs : Nat) : Option Node :=
  let r := enterPhase r
  match r.phase with
  | .draining | .stopped => none
  | _ => some (advanceReplies r elapsedMs)

/-- A leader applies its own removal: it steps down in its term. -/
def appliesRemoval (r : Node) (appliedIndex : Int) : Bool :=
  match applyScan r appliedIndex with
  | (scanned, 0, selfRemoved) =>
    match installIfDue (markScanned scanned) appliedIndex with
    | (installed, 0) => r.completing && selfRemoved && decide ((retireClients installed).state = .leader)
    | _ => false
  | _ => false

/-- The step takes the node out of office within its term: contact with a quorum is
lost, a joint configuration is given up in the last term, or a leader has applied its
own removal. -/
def leavesInTerm (r : Node) : Op → Bool
  | .advance elapsedMs => (tickState (advanceReplies (enterPhase r) elapsedMs)).any
      (fun leader => leavesOffice leader elapsedMs)
  | .applyComplete appliedIndex => appliesRemoval r appliedIndex
  | _ => false

/-- The same of a run in which candidacies may find no memory. -/
def leaves (starved : Bool) (r : Node) : Op → Bool
  | .advance elapsedMs => ((runningState r elapsedMs).bind (tickStateOf (candidacy starved))).any
      (fun leader => leavesOffice leader elapsedMs)
  | .applyComplete appliedIndex => appliesRemoval r appliedIndex
  | _ => false

/-- The node as a candidacy in the call finds it. -/
def standsAt (r : Node) : Op → Option Node
  | .recvPeer msg => if r.phase = .stopped then none else peerStands r msg
  | .advance elapsedMs =>
    (runningState r elapsedMs).bind (fun r => (campaignState r).bind deadlineStands)
  | _ => none

/-- The step takes back a vote: it leaves office within the term, or a candidacy is rolled back in a
term in which the node has voted. -/
def takesBack (r : Node) (event : Event) : Bool :=
  leaves event.2 r event.1 ||
    event.2 && (standsAt r event.1).any (fun node => rollsBack node && node.votedFor ≠ 0)

def Spares (run : Run) (event : Event) : Prop := takesBack run.node event = false

instance (run : Run) (event : Event) : Decidable (Spares run event) :=
  inferInstanceAs (Decidable (_ = _))

/-- The states of a node that starts from what its caller restored, candidacies without memory
included. -/
def Reached (cfg : CreateConfig) : Run → Prop :=
  Lib.Runs.Reaches (fun run => Run.start cfg = some run) step (fun _ _ => True)

def elected : CreateConfig := ⟨1, [1, 2, 3], false, 10, 100, 200, 7, 1024, 4, none⟩

theorem reached_of_events (cfg : CreateConfig) (test : Run → Bool) (events : List Event)
    (passed : ((Run.start cfg).bind
      (fun run => Lib.Runs.through step (fun _ _ => True) run events)).any test = true) :
    ∃ run, Reached cfg run ∧ test run = true :=
  Lib.Runs.Reaches.exists_of_through step (fun _ _ => True) (Run.start cfg) (fun _ started => started)
    test events passed

/-- The only voter has given its vote of term 5 to node 2. -/
def alone : CreateConfig := ⟨1, [1], false, 10, 100, 200, 7, 1024, 4, none⟩

/-- It stands, finds no memory, is back in term 5 without its vote, and votes for node 3. -/
theorem second_vote_without_memory : ∃ run later, Reached alone run ∧
    later = step (step run (.advance 250, true)) (.recvPeer ⟨3, 1, .requestVote ⟨5, 1, 1, 3, false⟩⟩, false) ∧
    run.node.currentTerm = 5 ∧ run.node.votedFor = 2 ∧
    later.node.currentTerm = 5 ∧ later.node.votedFor = 3 := by
  obtain ⟨run, reached, tested⟩ := reached_of_events alone
    (fun run => decide (run.node.currentTerm = 5) && decide (run.node.votedFor = 2) &&
      decide ((step (step run (.advance 250, true))
        (.recvPeer ⟨3, 1, .requestVote ⟨5, 1, 1, 3, false⟩⟩, false)).node.currentTerm = 5) &&
      decide ((step (step run (.advance 250, true))
        (.recvPeer ⟨3, 1, .requestVote ⟨5, 1, 1, 3, false⟩⟩, false)).node.votedFor = 3))
    [(.recvPeer ⟨2, 1, .requestVote ⟨5, 1, 1, 2, false⟩⟩, false)] (by decide +kernel)
  simp only [Bool.and_eq_true, decide_eq_true_eq] at tested
  exact ⟨run, _, reached, rfl, tested.1.1.1, tested.1.1.2, tested.1.2, tested.2⟩

end Kynovo.Raft.Vote
