import Kynovo.Raft.Standing

/-! The election of a sole voter. A node whose configuration is itself alone wins an election
in the call in which its deadline expires, if its peer table lists learners only; a voter that
an abandoned change left in the table keeps it waiting for votes. -/
namespace Kynovo.Raft.SelfElection
open Kynovo.Raft.Refusal
open Kynovo.Raft.Standing

variable {r : Node}

/-! ## The invariant holds in every run -/

theorem freshNode_stands {cfg : CreateConfig} {voters : List Int} (timed : 0 < cfg.electionMinMs)
    (valid : ∀ id ∈ voters, raftIdValid id = true) : Stands (freshNode cfg voters) where
  timed := timed
  joint := nofun
  valid := by
    intro id alone
    have named : voters = [id] := alone
    exact valid id (named ▸ List.mem_singleton_self id)
  received := nofun
  polling := nofun
  catchup := nofun

theorem bootstrapVoters_valid {cfg : CreateConfig} {voters : List Int}
    (made : bootstrapVoters cfg = some voters) : ∀ id ∈ voters, raftIdValid id = true := by
  unfold bootstrapVoters at made
  split at made
  · split at made
    · cases made
      nofun
    · exact raftMakeSortedIds_valid made
  · simp only [Option.bind_eq_bind, Option.bind_eq_some_iff] at made
    obtain ⟨sorted, fromPeers, chosen⟩ := made
    split at chosen
    · cases chosen
      exact raftMakeSortedIds_valid fromPeers
    · cases chosen

theorem restoreVoters_keeps {r r' : Node} {p : Wal.Record.Persist}
    (restored : restoreVoters r p = some r') : Keeps r r' := by
  unfold restoreVoters at restored
  split at restored
  · cases restored
    exact .refl r
  · simp only [Option.bind_eq_bind, Option.bind_eq_some_iff, Option.some.injEq] at restored
    obtain ⟨old, fromOld, new, fromNew, rfl⟩ := restored
    constructor
    rintro ⟨timed, -, -, received, polling, catchup⟩
    refine ⟨timed, ?_, ?_, received, polling, catchup⟩
    · rintro split id ⟨isOld, isNew⟩
      dsimp only at split isOld isNew
      rw [isOld] at fromOld
      rw [isNew] at fromNew
      have alone := List.singleton_perm.mp (raftMakeSortedIds_perm fromOld)
      have same := List.singleton_perm.mp (raftMakeSortedIds_perm fromNew)
      rw [← alone, ← same] at split
      simp at split
    · intro id isOld
      have named : old = [id] := isOld
      exact raftMakeSortedIds_valid fromOld id (named ▸ List.mem_singleton_self id)

theorem restoreLearners_keeps {r r' : Node} {p : Wal.Record.Persist}
    (restored : restoreLearners r p = some r') : Keeps r r' := by
  unfold restoreLearners at restored
  split at restored
  · cases restored
    exact .refl r
  · simp only [Option.bind_eq_bind, Option.bind_eq_some_iff, Option.some.injEq] at restored
    obtain ⟨learners, _, rfl⟩ := restored
    exact .of_same rfl

theorem restoreNode_keeps {r r' : Node} {p : Wal.Record.Persist}
    (restored : restoreNode r p = some r') : Keeps r r' := by
  unfold restoreNode at restored
  split at restored
  · cases restored
  · simp only [Option.bind_eq_bind, Option.bind_eq_some_iff] at restored
    obtain ⟨a, voters, b, learners, log, entries, built⟩ := restored
    have start : Keeps r a := (restoreVoters_keeps voters).after rfl
    have named : Keeps r b := start.trans (restoreLearners_keeps learners)
    have applied := raftApplyConfigFromLog_keeps { b with
      log := log
      durableIndex := raftLogLastIndex log
      durableConfirm := raftLogLastIndex log
      persistSyncedIndex := raftLogLastIndex log }
    split at built
    · rename_i shape
      rw [shape] at applied
      cases built
      exact (named.trans (applied.after rfl)).trans (rebuildPeers_keeps _)
    · cases built

theorem raftCreate_stands {cfg : CreateConfig} (created : raftCreate cfg = some r) : Stands r := by
  unfold raftCreate at created
  split at created
  · cases created
  · rename_i checked
    simp only [Bool.or_eq_true, decide_eq_true_eq, not_or] at checked
    simp only [Option.bind_eq_bind, Option.bind_eq_some_iff, Option.some.injEq] at created
    obtain ⟨voters, made, restored, from_, rfl⟩ := created
    have fresh := freshNode_stands (Nat.pos_of_ne_zero checked.2) (bootstrapVoters_valid made)
    have kept : Keeps (freshNode cfg voters) restored := by
      unfold restoreFrom at from_
      split at from_
      · cases from_
        exact .refl _
      · exact restoreNode_keeps from_
    have counted : Keeps restored { restored with config.appliedIndex := restored.lastApplied } :=
      .of_same rfl
    exact (kept.trans counted).stands fresh

theorem call_keeps (r : Node) (op : Op) : Keeps r (call r op) := by
  cases op with
  | recvPeer msg => exact raftRecvfromPeer_keeps r msg
  | recvClient msg => exact raftRecvfromClient_keeps r msg
  | advance elapsedMs => exact .refl r
  | complete => exact .refl r
  | applyComplete appliedIndex => exact raftApplyComplete_keeps r appliedIndex
  | snapshot =>
    change Keeps r (raftSnapshot r).1
    unfold raftSnapshot
    split
    · exact .refl r
    · dsimp only
      split
      · exact .of_same rfl
      · exact .of_same rfl
  | snapshotDataReady totalSize =>
    change Keeps r (raftSnapshotDataReady r totalSize).1
    unfold raftSnapshotDataReady
    split
    · exact .refl r
    · exact .of_same rfl
  | snapshotDataProvided followerId byteOffset size =>
    exact raftSnapshotDataProvided_keeps r followerId byteOffset size
  | stop => exact raftStop_keeps r

theorem step_keeps (run : Run) (op : Op) : Keeps run.node (run.step op).node := by
  cases op with
  | advance elapsedMs =>
    have consumed : Keeps (raftAdvance run.node elapsedMs).1
        (raftReadyConsumed (raftAdvance run.node elapsedMs).1) := .of_same rfl
    exact (raftAdvance_keeps run.node elapsedMs).trans consumed
  | complete =>
    rw [Run.step]
    unfold settleFirst
    split
    · exact .refl _
    · exact completeView_keeps _ _
  | recvPeer msg => exact call_keeps run.node (.recvPeer msg)
  | recvClient msg => exact call_keeps run.node (.recvClient msg)
  | applyComplete appliedIndex => exact call_keeps run.node (.applyComplete appliedIndex)
  | snapshot => exact call_keeps run.node .snapshot
  | snapshotDataReady totalSize => exact call_keeps run.node (.snapshotDataReady totalSize)
  | snapshotDataProvided followerId byteOffset size =>
    exact call_keeps run.node (.snapshotDataProvided followerId byteOffset size)
  | stop => exact call_keeps run.node .stop

theorem reaches_stands {cond : Run → Op → Prop} {cfg : CreateConfig} {run : Run}
    (reached : Reaches cond cfg run) : Stands run.node := by
  refine @Reaches.invariant cond cfg (fun run => Stands run.node) ?_ ?_ run reached
  · intro start created
    obtain ⟨node, made, rfl⟩ := Option.map_eq_some_iff.mp created
    exact raftCreate_stands made
  · intro run op stands _
    exact (step_keeps run op).stands stands

/-! ## Up to the campaign -/

/-- What an election reads. -/
def bearing (r : Node) : Settings × Phase × Role × Int × Nat × Nat × Membership × List Peer × Bool :=
  (r.cfg, r.phase, r.state, r.currentTerm, r.timers.electionDeadline, r.timers.electionElapsed,
    r.config, r.peers, r.catchup.active)

theorem emitResults_bearing (r : Node) (cookies : List Nat) (status : ClientStatus) :
    bearing (emitResults r cookies status) = bearing r := by
  unfold emitResults
  induction cookies generalizing r with
  | nil => rfl
  | cons cookie rest ih => exact (ih (raftResultEmit r cookie status)).trans rfl

theorem expireFollowerRead_bearing (r : Node) (elapsedMs : Nat) :
    bearing (expireFollowerRead r elapsedMs) = bearing r := by
  unfold expireFollowerRead
  split
  · rfl
  · dsimp only
    split
    · exact emitResults_bearing r _ .failed
    · rfl

theorem expireBarriers_bearing (r : Node) (elapsedMs : Nat) :
    bearing (expireBarriers r elapsedMs) = bearing r := by
  unfold expireBarriers
  split
  · split
    · exact emitResults_bearing r _ .failed
    · rfl
  · rfl

theorem startFollowerRead_bearing (r : Node) : bearing (startFollowerRead r) = bearing r := by
  unfold startFollowerRead
  split
  · rfl
  · rfl

theorem endTransfer_bearing (r : Node) (status : ClientStatus) :
    bearing (endTransfer r status) = bearing r := emitResults_bearing r _ status

theorem advanceTransfer_bearing (r : Node) (elapsedMs : Nat) :
    bearing (advanceTransfer r elapsedMs) = bearing r := by
  unfold advanceTransfer
  split
  · rfl
  · split
    · exact (endTransfer_bearing _ _).trans rfl
    · dsimp only
      split
      · exact endTransfer_bearing r .failed
      · rfl

theorem release_bearing (r : Node) :
    bearing (releaseVoteRequest (releaseReject (releaseAppend (releaseVote r)))) = bearing r := by
  have votes : ∀ r, bearing (releaseVote r) = bearing r := by
    intro r
    unfold releaseVote
    split
    · rfl
    · rfl
  have reports : ∀ r, bearing (reportAppend r) = bearing r := by
    intro r
    unfold reportAppend
    split
    · rfl
    · rfl
  have appends : ∀ r, bearing (releaseAppend r) = bearing r := by
    intro r
    unfold releaseAppend settleAppend
    split
    · split
      · exact (reports r)
      · exact reports r
    · rfl
  have rejects : ∀ r, bearing (releaseReject r) = bearing r := by
    intro r
    unfold releaseReject
    split
    · rfl
    · rfl
  have requests : ∀ r, bearing (releaseVoteRequest r) = bearing r := by
    intro r
    unfold releaseVoteRequest
    split
    · rfl
    · rfl
  rw [requests, rejects, appends, votes]

/-- Nothing before the campaign touches the election but the timer. -/
theorem advanceReplies_bearing (r : Node) (elapsedMs : Nat) :
    bearing (advanceReplies r elapsedMs) =
      bearing (advanceTimers r elapsedMs (r.state ≠ .leader)) := by
  unfold advanceReplies
  dsimp only
  rw [release_bearing, advanceTransfer_bearing, startFollowerRead_bearing, expireBarriers_bearing,
    expireFollowerRead_bearing]

/-! ## The leader's tick -/

theorem foldl_state {α : Type} (change : Node → α → Node)
    (each : ∀ r item, (change r item).state = r.state) (items : List α) (r : Node) :
    (items.foldl change r).state = r.state := by
  induction items generalizing r with
  | nil => rfl
  | cons item rest ih => exact (ih (change r item)).trans (each r item)

theorem raftQueueAppendEntries_state (r : Node) (position : Nat) :
    (raftQueueAppendEntries r position).state = r.state := by
  unfold raftQueueAppendEntries
  split
  · rfl
  · split
    · split
      · rfl
      · rfl
    · rfl

theorem tickLearner_state (elapsedMs : Nat) (r : Node) (position : Nat) :
    (tickLearner elapsedMs r position).state = r.state := by
  unfold tickLearner
  split
  · rfl
  · dsimp only
    split
    · rfl
    · split
      · rfl
      · split
        · split
          · split
            · rfl
            · rfl
          · rfl
        · rfl

theorem tickSend_state (r : Node) (elapsedMs : Nat) : (tickSend r elapsedMs).state = r.state := by
  have heartbeat : (tickHeartbeat r).state = r.state := by
    unfold tickHeartbeat
    split
    · exact (foldl_state _ raftQueueAppendEntries_state _ _).trans rfl
    · rfl
  have answered : (tickReadIndex (tickHeartbeat r)).state = r.state := by
    rw [← heartbeat]
    unfold tickReadIndex
    split
    · rfl
    · rfl
  exact (foldl_state _ (tickLearner_state elapsedMs) _ _).trans answered

theorem raftAdvanceCommit_frame (r : Node) : (raftAdvanceCommit r).state = r.state ∧
    (raftAdvanceCommit r).config = r.config := by
  have walk (steps : Nat) : ∀ (r : Node) (idx : Int), (advanceCommitFrom r steps idx).state = r.state ∧
      (advanceCommitFrom r steps idx).config = r.config := by
    induction steps with
    | zero => exact fun r idx => ⟨rfl, rfl⟩
    | succ steps ih =>
      intro r idx
      unfold advanceCommitFrom
      split
      · exact ih r (idx + 1)
      · split
        · exact ih _ (idx + 1)
        · exact ⟨rfl, rfl⟩
  exact walk _ r _

/-- A leader that has just been elected, without a change to wait for, stays leader through
its first tick. -/
theorem raftLeaderTick_state (elapsedMs : Nat) (leads : r.state = .leader)
    (idle : r.catchup.active = false) (single : r.config.joint = false)
    (rested : r.timers.electionElapsed = 0) (timed : 0 < r.timers.electionDeadline) :
    (raftLeaderTick r elapsedMs).state = .leader := by
  have caught : tickCatchup r elapsedMs = (r, false) := by
    unfold tickCatchup
    rw [idle]
    rfl
  have stays : jointAbortDue r elapsedMs = false := by
    unfold jointAbortDue
    rw [single]
    rfl
  -- the stages before the check of the deadline keep office, configuration and timer
  have jointed : (tickJointElapsed r elapsedMs).state = .leader ∧
      (tickJointElapsed r elapsedMs).config = r.config ∧
      (tickJointElapsed r elapsedMs).timers.electionElapsed = 0 ∧
      0 < (tickJointElapsed r elapsedMs).timers.electionDeadline := by
    unfold tickJointElapsed
    split
    · exact ⟨leads, rfl, rested, timed⟩
    · exact ⟨leads, rfl, rested, timed⟩
  have contacted (a : Node) (office : a.state = .leader) (elapsed : a.timers.electionElapsed = 0)
      (deadline : 0 < a.timers.electionDeadline) : (tickReadRound (tickContact a)).state = .leader ∧
      (tickReadRound (tickContact a)).config = a.config ∧
      (tickReadRound (tickContact a)).timers.electionElapsed = 0 ∧
      0 < (tickReadRound (tickContact a)).timers.electionDeadline := by
    have contact : (tickContact a).state = .leader ∧ (tickContact a).config = a.config ∧
        (tickContact a).timers.electionElapsed = 0 ∧
        0 < (tickContact a).timers.electionDeadline := by
      unfold tickContact
      split
      · exact ⟨office, rfl, rfl, deadline⟩
      · exact ⟨office, rfl, elapsed, deadline⟩
    unfold tickReadRound
    split
    · exact contact
    · exact contact
  obtain ⟨office, config, elapsed, deadline⟩ := jointed
  obtain ⟨office, sameConfig, elapsed, deadline⟩ := contacted _ office elapsed deadline
  have unexpired : ¬ (tickReadRound (tickContact (tickJointElapsed r elapsedMs))).timers.electionDeadline ≤
      (tickReadRound (tickContact (tickJointElapsed r elapsedMs))).timers.electionElapsed := by
    omega
  obtain ⟨sameOffice, committedConfig⟩ :=
    raftAdvanceCommit_frame (tickReadRound (tickContact (tickJointElapsed r elapsedMs)))
  have finalized : raftMaybeFinalizeJoint
      (raftAdvanceCommit (tickReadRound (tickContact (tickJointElapsed r elapsedMs)))) =
      (raftAdvanceCommit (tickReadRound (tickContact (tickJointElapsed r elapsedMs))), 0) := by
    unfold raftMaybeFinalizeJoint
    rw [committedConfig, sameConfig, config, single]
    split
    · rfl
    · rfl
  unfold raftLeaderTick
  rw [caught]
  dsimp only
  rw [stays]
  simp only [Bool.false_eq_true, ↓reduceIte]
  unfold tickLead
  dsimp only
  rw [if_neg unexpired, finalized]
  exact (tickSend_state _ _).trans (sameOffice.trans office)

theorem emitResults_state (r : Node) (cookies : List Nat) (status : ClientStatus) :
    (emitResults r cookies status).state = r.state :=
  foldl_state (fun r cookie => raftResultEmit r cookie status) (fun _ _ => rfl) cookies r

theorem offered_state (r : Node) : (raftCheckBarriers (raftEnqueueApply r)).state = r.state := by
  have offered (steps : Nat) : ∀ r : Node, (enqueueApplyFrom r steps).state = r.state := by
    induction steps with
    | zero => exact fun r => rfl
    | succ steps ih =>
      intro r
      unfold enqueueApplyFrom
      split
      · rfl
      · exact (ih (offerNext r)).trans rfl
  exact (emitResults_state _ _ _).trans (offered _ r)

/-! ## The election -/

/-- The configuration in force names the node alone. -/
structure Sole (r : Node) : Prop where
  old : r.config.old = [r.cfg.id]
  new : r.config.new = [r.cfg.id]
  voter : raftIsLearner r.config.learners r.cfg.id = false

theorem maskHas_self {id : Int} (valid : raftIdValid id = true) : raftMaskHas [id] id = true := by
  unfold raftMaskHas
  rw [valid]
  simp [maskSearch]

theorem preVoteFields_voters (r : Node) :
    raftHasVoterPeer (preVoteFields r) = raftHasVoterPeer r := by
  simp [raftHasVoterPeer, preVoteFields, Function.comp_def]

theorem candidateFields_voters (r : Node) :
    raftHasVoterPeer (candidateFields r) = raftHasVoterPeer r := by
  simp [raftHasVoterPeer, candidateFields, Function.comp_def]

/-- Without a voter in the table the campaign of a sole voter makes it leader at once. -/
theorem raftStartPreVote_alone (sole : Sole r) (valid : raftIdValid r.cfg.id = true)
    (below : r.currentTerm < termMax) (alone : raftHasVoterPeer r = false) :
    raftStartPreVote r = (leadAlone (candidateFields (preVoteFields r)), 0) := by
  have polled := preVoteFields_voters r
  have stood := candidateFields_voters (preVoteFields r)
  rw [alone] at polled
  rw [polled] at stood
  have member : raftMaskHas (preVoteFields r).config.old (preVoteFields r).cfg.id = true := by
    change raftMaskHas r.config.old r.cfg.id = true
    rw [sole.old]
    exact maskHas_self valid
  have voter : raftIsLearner (preVoteFields r).config.learners (preVoteFields r).cfg.id = false :=
    sole.voter
  have room : ¬ termMax ≤ (preVoteFields r).currentTerm := not_le.mpr below
  unfold raftStartPreVote
  dsimp only
  rw [polled, member]
  unfold raftBecomeCandidate
  rw [voter]
  dsimp only
  rw [stood]
  simp only [Bool.not_false, ↓reduceIte, Bool.false_eq_true, room]

/-- With a voter in the table it only asks for pre-votes. -/
theorem raftStartPreVote_waits (peer : raftHasVoterPeer r = true) :
    raftStartPreVote r = (raftBroadcastVote (preVoteFields r) true, 0) := by
  have polled := preVoteFields_voters r
  rw [peer] at polled
  unfold raftStartPreVote
  dsimp only
  rw [polled]
  rfl

theorem leadAlone_tick (elapsedMs : Nat) (timed : 0 < r.cfg.electionMinMs)
    (idle : r.catchup.active = false) (single : r.config.joint = false) :
    (raftLeaderTick (leadAlone (candidateFields (preVoteFields r))) elapsedMs).state = .leader := by
  apply raftLeaderTick_state (r := leadAlone (candidateFields (preVoteFields r))) elapsedMs rfl idle
    single rfl
  exact Nat.lt_of_lt_of_le timed (Nat.le_add_right _ _)

/-- From the campaign on: who leads at the end of the round. -/
theorem raftAdvanceInner_leads (elapsedMs : Nat) (sole : Sole r)
    (valid : raftIdValid r.cfg.id = true) (settled : r.config.applyStale = false)
    (other : r.state ≠ .leader) (expired : r.timers.electionDeadline ≤ r.timers.electionElapsed)
    (below : r.currentTerm < termMax) (timed : 0 < r.cfg.electionMinMs)
    (idle : r.catchup.active = false) (single : r.config.joint = false) :
    (raftAdvanceInner r elapsedMs).state = .leader ↔ raftHasVoterPeer r = false := by
  have fresh : reapplyStale r = (r, 0) := by
    unfold reapplyStale
    rw [settled]
    rfl
  have campaigns : campaign r = raftStartPreVote r := by
    unfold campaign
    rw [if_pos (by simp [other, expired])]
  unfold raftAdvanceInner
  rw [fresh]
  simp only
  rw [campaigns]
  cases peer : raftHasVoterPeer r with
  | false =>
    rw [raftStartPreVote_alone sole valid below peer]
    change (raftCheckBarriers (raftEnqueueApply (tickIfLeader
      (leadAlone (candidateFields (preVoteFields r))) elapsedMs))).state = .leader ↔ _
    rw [offered_state]
    unfold tickIfLeader
    rw [if_pos (show (leadAlone (candidateFields (preVoteFields r))).state = .leader from rfl),
      leadAlone_tick elapsedMs timed idle single]
    simp
  | true =>
    rw [raftStartPreVote_waits peer]
    change (raftCheckBarriers (raftEnqueueApply (tickIfLeader
      (raftBroadcastVote (preVoteFields r) true) elapsedMs))).state = .leader ↔ _
    rw [offered_state]
    unfold tickIfLeader
    rw [if_neg (show (raftBroadcastVote (preVoteFields r) true).state ≠ .leader from other)]
    constructor
    · intro leads
      exact absurd leads other
    · intro contradiction
      cases contradiction

theorem finishDrain_state (r : Node) : (finishDrain r).state = r.state := by
  have flushed : (raftFlushClientResults r .failed).state = r.state :=
    (emitResults_state _ _ _).trans ((emitResults_state _ _ _).trans (emitResults_state _ _ _))
  have failed (a : Node) : (failCatchup a).state = a.state := by
    unfold failCatchup
    split
    · rfl
    · rfl
  exact (emitResults_state _ _ _).trans ((failed _).trans flushed)

theorem advanceOutput_state (r : Node) (phaseStopped : Bool) :
    (advanceOutput r phaseStopped).1.state = r.state := rfl

theorem advanceDrain_state (r : Node) (elapsedMs : Nat) :
    (advanceDrain r elapsedMs).1.state = r.state := by
  have offered : (raftCheckBarriers (raftEnqueueApply (advanceTimers r elapsedMs true))).state =
      r.state := offered_state (advanceTimers r elapsedMs true)
  unfold advanceDrain
  dsimp only
  split
  · rw [advanceOutput_state, finishDrain_state, offered]
  · rw [advanceOutput_state, offered]

/-- A node that runs, or starts to with this call. -/
def Runs (r : Node) : Prop := r.phase = .ready ∨ r.phase = .running

theorem raftAdvance_leads (elapsedMs : Nat) (stands : Stands r) (sole : Sole r)
    (settled : r.config.applyStale = false) (other : r.state ≠ .leader)
    (expires : r.timers.electionDeadline ≤ raftElapsedAdd r.timers.electionElapsed elapsedMs)
    (below : r.currentTerm < termMax) :
    (raftAdvance r elapsedMs).1.state = .leader ↔ Runs r ∧ raftHasVoterPeer r = false := by
  have valid := stands.valid r.cfg.id sole.old
  have single : r.config.joint = false := by
    cases split : r.config.joint with
    | false => rfl
    | true => exact absurd ⟨sole.old, sole.new⟩ (stands.joint split r.cfg.id)
  have started (a : Node) (phase : a.phase = .running) (same : { a with phase := r.phase } = r)
      (runs : Runs r) :
      (raftAdvanceInner (advanceReplies a elapsedMs) elapsedMs).state = .leader ↔
        raftHasVoterPeer r = false := by
    have idle : r.catchup.active = false := by
      cases active : r.catchup.active with
      | false => rfl
      | true =>
        rcases stands.catchup active with leads | draining | stopped
        · exact absurd leads other
        · rcases runs with ready | running
          · rw [ready] at draining
            cases draining
          · rw [running] at draining
            cases draining
        · rcases runs with ready | running
          · rw [ready] at stopped
            cases stopped
          · rw [running] at stopped
            cases stopped
    have fields := advanceReplies_bearing a elapsedMs
    simp only [bearing, Prod.mk.injEq] at fields
    obtain ⟨cfg, -, state, term, deadline, elapsed, config, peers, active⟩ := fields
    have voters : raftHasVoterPeer (advanceReplies a elapsedMs) = raftHasVoterPeer r := by
      unfold raftHasVoterPeer
      rw [peers, ← same]
      rfl
    have toR : a.cfg = r.cfg ∧ a.state = r.state ∧ a.currentTerm = r.currentTerm ∧
        a.timers = r.timers ∧ a.config = r.config ∧ a.catchup = r.catchup := by
      rw [← same]
      exact ⟨rfl, rfl, rfl, rfl, rfl, rfl⟩
    obtain ⟨sameCfg, sameState, sameTerm, sameTimers, sameConfig, sameCatchup⟩ := toR
    rw [← voters]
    apply raftAdvanceInner_leads elapsedMs
    · constructor
      · rw [config, cfg]
        change a.config.old = [a.cfg.id]
        rw [sameConfig, sameCfg]
        exact sole.old
      · rw [config, cfg]
        change a.config.new = [a.cfg.id]
        rw [sameConfig, sameCfg]
        exact sole.new
      · rw [config, cfg]
        change raftIsLearner a.config.learners a.cfg.id = false
        rw [sameConfig, sameCfg]
        exact sole.voter
    · rw [cfg]
      exact sameCfg ▸ valid
    · rw [config]
      exact sameConfig ▸ settled
    · rw [state]
      exact sameState ▸ other
    · rw [deadline, elapsed]
      change a.timers.electionDeadline ≤ raftElapsedAdd a.timers.electionElapsed elapsedMs
      rw [sameTimers]
      exact expires
    · rw [term]
      exact sameTerm ▸ below
    · rw [cfg]
      exact sameCfg ▸ stands.timed
    · rw [active]
      exact sameCatchup ▸ idle
    · rw [config]
      exact sameConfig ▸ single
  -- a node that stops or has stopped runs no election
  have never {a : Node} (unready : r.phase ≠ .ready) (halted : r.phase ≠ .running)
      (follows : a.state ≠ .leader) :
      a.state = .leader ↔ Runs r ∧ raftHasVoterPeer r = false := by
    constructor
    · intro leads
      exact absurd leads follows
    · rintro ⟨ready | running, _⟩
      · exact absurd ready unready
      · exact absurd running halted
  unfold raftAdvance
  cases phase : r.phase with
  | ready =>
    have enters : enterPhase r = { r with phase := .running } := by
      unfold enterPhase
      rw [phase]
    have leads := started { r with phase := .running } rfl rfl (.inl phase)
    rw [enters]
    exact leads.trans (and_iff_right (.inl phase)).symm
  | running =>
    have enters : enterPhase r = r := by
      unfold enterPhase
      rw [phase]
    have leads := started r phase rfl (.inr phase)
    rw [enters]
    dsimp only
    rw [phase]
    exact leads.trans (and_iff_right (.inr phase)).symm
  | stopping =>
    have drains : ∃ a : Node, enterPhase r = a ∧ a.phase = .draining ∧ a.state = .follower := by
      unfold enterPhase
      rw [phase]
      exact ⟨_, rfl, rfl, rfl⟩
    obtain ⟨a, enters, draining, follows⟩ := drains
    rw [enters]
    dsimp only
    rw [draining]
    refine never (by simp [phase]) (by simp [phase]) ?_
    rw [advanceDrain_state, follows]
    nofun
  | draining =>
    have enters : enterPhase r = r := by
      unfold enterPhase
      rw [phase]
    rw [enters]
    dsimp only
    rw [phase]
    refine never (by simp [phase]) (by simp [phase]) ?_
    rw [advanceDrain_state]
    exact other
  | stopped =>
    have enters : enterPhase r = r := by
      unfold enterPhase
      rw [phase]
    rw [enters]
    dsimp only
    rw [phase]
    exact never (by simp [phase]) (by simp [phase]) other

/-- In every run: a sole voter whose deadline expires leads at the end of the call if and only
if it runs and its peer table has no voter left in it. -/
theorem sole_voter_leads_iff {cfg : CreateConfig} {run : Run}
    (reached : Reaches (fun _ _ => True) cfg run) (sole : Sole run.node)
    (settled : run.node.config.applyStale = false) (other : run.node.state ≠ .leader)
    (elapsedMs : Nat) (expires : run.node.timers.electionDeadline ≤
      raftElapsedAdd run.node.timers.electionElapsed elapsedMs)
    (below : run.node.currentTerm < termMax) :
    (raftAdvance run.node elapsedMs).1.state = .leader ↔
      Runs run.node ∧ raftHasVoterPeer run.node = false :=
  raftAdvance_leads elapsedMs (reaches_stands reached) sole settled other expires below

/-! One voter, which leads; it is asked to add a second one, and a request for votes of a
newer term ends its term while the second catches up. -/

def loneVoter : CreateConfig := ⟨1, [1], false, 10, 100, 200, 7, 1024, 4, none⟩

def abandonedChange : List Op :=
  [.advance 0, .advance 250, .recvClient (.reconfig 5 [1, 2]),
    .recvPeer ⟨2, 1, .requestVote ⟨5, 0, 0, 2, false⟩⟩]

/-- A fresh sole voter elects itself. -/
theorem lone_voter_leads : ∃ run, Reaches (fun _ _ => True) loneVoter run ∧
    ((raftAdvance run.node 250).1.state = .leader ↔
      Runs run.node ∧ raftHasVoterPeer run.node = false) ∧ Runs run.node ∧
    raftHasVoterPeer run.node = false := by
  obtain ⟨run, reached, tested⟩ := Reaches.exists_of_through (fun _ _ => True) loneVoter
    (fun run => decide (run.node.config.old = [run.node.cfg.id]) &&
      decide (run.node.config.new = [run.node.cfg.id]) &&
      !raftIsLearner run.node.config.learners run.node.cfg.id && !run.node.config.applyStale &&
      decide (run.node.state ≠ .leader) && decide (run.node.timers.electionDeadline ≤
        raftElapsedAdd run.node.timers.electionElapsed 250) &&
      decide (run.node.currentTerm < termMax) && decide (run.node.phase = .running) &&
      !raftHasVoterPeer run.node) [.advance 0] (by decide +kernel)
  simp only [Bool.and_eq_true, decide_eq_true_eq, Bool.not_eq_true'] at tested
  obtain ⟨⟨⟨⟨⟨⟨⟨⟨old, new⟩, voter⟩, settled⟩, other⟩, expires⟩, below⟩, running⟩, alone⟩ := tested
  exact ⟨run, reached, sole_voter_leads_iff reached ⟨old, new, voter⟩ settled other 250 expires below,
    .inr running, alone⟩

/-- After the abandoned change the voter is alone in both configurations, and its expired
deadline does not make it leader. -/
theorem lone_voter_stranded : ∃ run, Reaches (fun _ _ => True) loneVoter run ∧ Sole run.node ∧
    run.node.phase = .running ∧ run.node.config.applyStale = false ∧
    run.node.state = .follower ∧
    run.node.timers.electionDeadline ≤ raftElapsedAdd run.node.timers.electionElapsed 250 ∧
    run.node.currentTerm < termMax ∧ (raftAdvance run.node 250).1.state ≠ .leader := by
  obtain ⟨run, reached, tested⟩ := Reaches.exists_of_through (fun _ _ => True) loneVoter
    (fun run => decide (run.node.config.old = [run.node.cfg.id]) &&
      decide (run.node.config.new = [run.node.cfg.id]) &&
      !raftIsLearner run.node.config.learners run.node.cfg.id && !run.node.config.applyStale &&
      decide (run.node.state = .follower) && decide (run.node.timers.electionDeadline ≤
        raftElapsedAdd run.node.timers.electionElapsed 250) &&
      decide (run.node.currentTerm < termMax) && decide (run.node.phase = .running) &&
      decide ((raftAdvance run.node 250).1.state ≠ .leader)) abandonedChange (by decide +kernel)
  simp only [Bool.and_eq_true, decide_eq_true_eq, Bool.not_eq_true'] at tested
  obtain ⟨⟨⟨⟨⟨⟨⟨⟨old, new⟩, voter⟩, settled⟩, follows⟩, expires⟩, below⟩, running⟩, waits⟩ := tested
  exact ⟨run, reached, ⟨old, new, voter⟩, running, settled, follows, expires, below, waits⟩

end Kynovo.Raft.SelfElection
