import Kynovo.Raft.Client

/-! What calls leave alone. The core of a node is what its durability rests on:
log, durability frontier, term and vote with their generations, the latches of
deferred replies, and the queued messages that expose the hard state. A calm
change keeps the core, except that a persist may become due and a latch may be
dropped; and nobody becomes a candidate by it. -/
namespace Kynovo.Raft.Frame

/-- Messages that expose the hard state of their sender. -/
def gated (message : PeerMessage) : Bool :=
  match message.rpc with
  | .requestVote rpc => !rpc.preVote
  | .requestVoteResult result => result.voteGranted && !result.preVote
  | .appendEntriesResult _ => true
  | .installSnapshotResult _ => true
  | _ => false

structure Core where
  log : Log
  durableIndex : Int
  durableConfirm : Int
  persistSyncedIndex : Int
  currentTerm : Int
  votedFor : Int
  persistGen : Nat
  termDirtyGen : Nat
  persistNeeded : Bool
  deferredVote : DeferredVote
  deferredVoteRequest : DeferredVoteRequest
  deferredAppend : DeferredAppend
  deferredReject : DeferredReject
  exposing : List PeerMessage
  id : Int
  candidate : Bool

def core (r : Node) : Core where
  log := r.log
  durableIndex := r.durableIndex
  durableConfirm := r.durableConfirm
  persistSyncedIndex := r.persistSyncedIndex
  currentTerm := r.currentTerm
  votedFor := r.votedFor
  persistGen := r.persistGen
  termDirtyGen := r.termDirtyGen
  persistNeeded := r.persistNeeded
  deferredVote := r.deferredVote
  deferredVoteRequest := r.deferredVoteRequest
  deferredAppend := r.deferredAppend
  deferredReject := r.deferredReject
  exposing := r.msgs.filter gated
  id := r.cfg.id
  candidate := r.state == .candidate

structure Calm (r r' : Node) : Prop where
  log : r'.log = r.log
  durableIndex : r'.durableIndex = r.durableIndex
  durableConfirm : r'.durableConfirm = r.durableConfirm
  persistSyncedIndex : r'.persistSyncedIndex = r.persistSyncedIndex
  currentTerm : r'.currentTerm = r.currentTerm
  votedFor : r'.votedFor = r.votedFor
  persistGen : r'.persistGen = r.persistGen
  termDirtyGen : r'.termDirtyGen = r.termDirtyGen
  needed : r.persistNeeded = true → r'.persistNeeded = true
  vote : r'.deferredVote.response = true → r'.deferredVote = r.deferredVote
  voteRequest : r'.deferredVoteRequest.pending = true →
    r'.deferredVoteRequest = r.deferredVoteRequest
  append : r'.deferredAppend.response = true → r'.deferredAppend = r.deferredAppend
  reject : r'.deferredReject.pending = true → r'.deferredReject = r.deferredReject
  exposing : r'.msgs.filter gated = r.msgs.filter gated
  id : r'.cfg.id = r.cfg.id
  standing : r'.state = .candidate → r.state = .candidate

/-- A change outside the core, except that candidacy may end. -/
theorem Calm.of_rest {r r' : Node} (same : core r' = { core r with candidate := r'.state == .candidate })
    (standing : r'.state = .candidate → r.state = .candidate) : Calm r r' := by
  simp only [core, Core.mk.injEq] at same
  obtain ⟨log, index, confirm, synced, term, vote, gen, dirty, needed, dv, dr, da, dj, msgs, id, -⟩ :=
    same
  exact ⟨log, index, confirm, synced, term, vote, gen, dirty, fun due => needed ▸ due,
    fun _ => dv, fun _ => dr, fun _ => da, fun _ => dj, msgs, id, standing⟩

theorem Calm.of_core {r r' : Node} (same : core r' = core r) : Calm r r' := by
  have candidate : (r'.state == .candidate) = (r.state == .candidate) := congrArg Core.candidate same
  refine .of_rest ?_ ?_
  · rw [same, candidate]
    rfl
  · simpa using congrArg (· = true) candidate |>.mp

theorem Calm.refl (r : Node) : Calm r r := .of_core rfl

theorem Calm.trans {a b c : Node} (first : Calm a b) (second : Calm b c) : Calm a c where
  log := second.log.trans first.log
  durableIndex := second.durableIndex.trans first.durableIndex
  durableConfirm := second.durableConfirm.trans first.durableConfirm
  persistSyncedIndex := second.persistSyncedIndex.trans first.persistSyncedIndex
  currentTerm := second.currentTerm.trans first.currentTerm
  votedFor := second.votedFor.trans first.votedFor
  persistGen := second.persistGen.trans first.persistGen
  termDirtyGen := second.termDirtyGen.trans first.termDirtyGen
  needed := fun due => second.needed (first.needed due)
  vote := fun due => by
    have same := second.vote due
    exact same.trans (first.vote (same ▸ due))
  voteRequest := fun due => by
    have same := second.voteRequest due
    exact same.trans (first.voteRequest (same ▸ due))
  append := fun due => by
    have same := second.append due
    exact same.trans (first.append (same ▸ due))
  reject := fun due => by
    have same := second.reject due
    exact same.trans (first.reject (same ▸ due))
  exposing := second.exposing.trans first.exposing
  id := second.id.trans first.id
  standing := fun still => first.standing (second.standing still)

/-- A fold of calm changes is calm. -/
theorem Calm.foldl {α : Type} (change : Node → α → Node) (calm : ∀ r item, Calm r (change r item))
    (items : List α) (r : Node) : Calm r (items.foldl change r) := by
  induction items generalizing r with
  | nil => exact .refl r
  | cons item rest ih => exact (calm r item).trans (ih (change r item))

theorem Calm.ite {r a b : Node} {cond : Prop} [Decidable cond] (whenTrue : Calm r a)
    (whenFalse : Calm r b) : Calm r (if cond then a else b) := by
  split
  · exact whenTrue
  · exact whenFalse

/-- A message that does not expose the hard state. -/
theorem sendMessage_calm (r : Node) (target : Int) (rpc : Rpc)
    (plain : gated ⟨r.cfg.id, target, rpc⟩ = false) : Calm r (sendMessage r target rpc) := by
  refine Calm.of_core ?_
  simp [core, sendMessage, List.filter_append, plain]

/-! ## Results and configuration -/

theorem raftResultEmit_calm (r : Node) (cookie : Nat) (status : ClientStatus) :
    Calm r (raftResultEmit r cookie status) := .of_core rfl

theorem emitResults_calm (r : Node) (cookies : List Nat) (status : ClientStatus) :
    Calm r (emitResults r cookies status) :=
  .foldl _ (fun r cookie => raftResultEmit_calm r cookie status) cookies r

theorem raftConfigPendingOnlyClear_calm (r : Node) : Calm r (raftConfigPendingOnlyClear r) :=
  .of_core rfl

theorem raftConfigPendingClear_calm (r : Node) : Calm r (raftConfigPendingClear r) := .of_core rfl

theorem raftConfigZombieClear_calm (r : Node) : Calm r (raftConfigZombieClear r) := by
  unfold raftConfigZombieClear
  exact .ite (raftConfigPendingOnlyClear_calm r) (.refl r)

theorem raftFlushClientResults_calm (r : Node) (status : ClientStatus) :
    Calm r (raftFlushClientResults r status) := by
  unfold raftFlushClientResults
  extract_lets barriers clients reads
  have toBarriers : Calm r barriers := emitResults_calm ..
  have toClients : Calm barriers clients := emitResults_calm ..
  have toReads : Calm clients reads := emitResults_calm ..
  exact ((toBarriers.trans toClients).trans toReads).trans (.of_core rfl)

theorem rebuildPeers_calm (r : Node) : Calm r (rebuildPeers r) := by
  unfold rebuildPeers
  exact .ite (.of_core rfl) (.of_core rfl)

theorem raftApplyConfigMasks_calm (r : Node) (old new learners : List Int) :
    Calm r (raftApplyConfigMasks r old new learners).1 := by
  unfold raftApplyConfigMasks
  split
  · exact .of_core rfl
  · split
    · exact .of_core rfl
    · rename_i config _
      exact (Calm.of_core rfl : Calm r { r with config := config }).trans (rebuildPeers_calm _)

theorem raftApplyConfigFromLog_calm (r : Node) : Calm r (raftApplyConfigFromLog r).1 := by
  unfold raftApplyConfigFromLog
  split
  · exact raftApplyConfigMasks_calm ..
  · obtain ⟨old, new, learners⟩ := baseMasks r
    dsimp only
    split
    · exact .refl r
    · exact raftApplyConfigMasks_calm ..

theorem advanceCommitFrom_calm (r : Node) (steps : Nat) (idx : Int) :
    Calm r (advanceCommitFrom r steps idx) := by
  induction steps generalizing r idx with
  | zero => exact .refl r
  | succ steps ih =>
    unfold advanceCommitFrom
    split
    · exact ih r (idx + 1)
    · split
      · exact (Calm.of_core rfl : Calm r { r with
          commitIndex := idx
          leadershipConfirmed := true }).trans (ih _ _)
      · exact .refl r

theorem raftAdvanceCommit_calm (r : Node) : Calm r (raftAdvanceCommit r) :=
  advanceCommitFrom_calm ..

/-! ## The leader's bookkeeping -/

theorem finishPromoted_calm (r : Node) (id : Int) : Calm r (finishPromoted r id) := by
  unfold finishPromoted
  split
  · exact .refl r
  · split
    · exact .refl r
    · split
      · exact .of_core rfl
      · exact .refl r

theorem raftDeferredCatchupAbort_calm (r : Node) : Calm r (raftDeferredCatchupAbort r) :=
  .of_core rfl

theorem setPending_calm (r : Node) (new learners : List Int) : Calm r (setPending r new learners) :=
  .of_core rfl

theorem admitChange_calm (r : Node) : Calm r (admitChange r) := by
  unfold admitChange
  exact (Calm.ite (raftConfigPendingClear_calm r) (.refl r)).trans (raftConfigZombieClear_calm _)

theorem tickJointElapsed_calm (r : Node) (elapsedMs : Nat) : Calm r (tickJointElapsed r elapsedMs) := by
  unfold tickJointElapsed
  exact .ite (.of_core rfl) (.of_core rfl)

theorem tickContact_calm (r : Node) : Calm r (tickContact r) := by
  unfold tickContact
  exact .ite (.of_core rfl) (.refl r)

theorem tickReadRound_calm (r : Node) : Calm r (tickReadRound r) := by
  unfold tickReadRound
  exact .ite (.of_core rfl) (.refl r)

theorem raftQueueAppendEntries_calm (r : Node) (position : Nat) :
    Calm r (raftQueueAppendEntries r position) := by
  unfold raftQueueAppendEntries
  split
  · exact .refl r
  · split
    · exact .ite (.refl r) (.of_core rfl)
    · refine Calm.of_core ?_
      simp [core, sendMessage, List.filter_append, gated]

theorem gated_of_isAppend {message : PeerMessage} (append : isAppend message = true) :
    gated message = false := by
  unfold isAppend at append
  unfold gated
  split at append
  · rename_i shape
    rw [shape]
  · cases append

theorem tickHeartbeat_calm (r : Node) : Calm r (tickHeartbeat r) := by
  unfold tickHeartbeat
  split
  · have dropped : ∀ msgs : List PeerMessage,
        (msgs.filter (fun message => !isAppend message)).filter gated = msgs.filter gated := by
      intro msgs
      rw [List.filter_filter]
      apply List.filter_congr
      intro message _
      cases shape : isAppend message
      · simp
      · simp [gated_of_isAppend shape]
    have started : Calm r (startHeartbeat r) := by
      refine Calm.of_core ?_
      simp [core, startHeartbeat, dropped]
    exact (started.trans (.foldl _ raftQueueAppendEntries_calm _ _)).trans (.of_core rfl)
  · exact .refl r

theorem tickReadIndex_calm (r : Node) : Calm r (tickReadIndex r) := by
  unfold tickReadIndex
  split
  · refine Calm.of_core ?_
    simp [core, List.filter_append, List.filter_map, gated, Function.comp_def]
  · exact .refl r

theorem tickLearner_calm (elapsedMs : Nat) (r : Node) (position : Nat) :
    Calm r (tickLearner elapsedMs r position) := by
  unfold tickLearner
  split
  · exact .refl r
  · refine .ite (.refl r) (.ite (.of_core rfl) (.ite (.ite (.ite ?_ ?_) (.of_core rfl)) (.of_core rfl)))
    · exact .of_core rfl
    · exact .of_core rfl

theorem tickSend_calm (r : Node) (elapsedMs : Nat) : Calm r (tickSend r elapsedMs) :=
  ((tickHeartbeat_calm r).trans (tickReadIndex_calm _)).trans
    (.foldl _ (tickLearner_calm elapsedMs) _ _)

/-! ## Applying, reading and timers -/

theorem enqueueApplyFrom_calm (r : Node) (steps : Nat) : Calm r (enqueueApplyFrom r steps) := by
  induction steps generalizing r with
  | zero => exact .refl r
  | succ steps ih =>
    unfold enqueueApplyFrom
    split
    · exact .refl r
    · exact (Calm.of_core rfl : Calm r (offerNext r)).trans (ih _)

theorem raftEnqueueApply_calm (r : Node) : Calm r (raftEnqueueApply r) := enqueueApplyFrom_calm ..

theorem raftCheckBarriers_calm (r : Node) : Calm r (raftCheckBarriers r) :=
  (emitResults_calm ..).trans (.of_core rfl)

theorem expireFollowerRead_calm (r : Node) (elapsedMs : Nat) :
    Calm r (expireFollowerRead r elapsedMs) := by
  unfold expireFollowerRead
  split
  · exact .refl r
  · dsimp only
    split
    · exact (emitResults_calm ..).trans (.of_core rfl)
    · exact .of_core rfl

theorem expireBarriers_calm (r : Node) (elapsedMs : Nat) : Calm r (expireBarriers r elapsedMs) := by
  unfold expireBarriers
  split
  · split
    · exact (emitResults_calm ..).trans (.of_core rfl)
    · exact .of_core rfl
  · exact .of_core rfl

theorem startFollowerRead_calm (r : Node) : Calm r (startFollowerRead r) := by
  unfold startFollowerRead
  split
  · refine Calm.of_core ?_
    simp [core, raftFollowerReadMaterialize, sendMessage, List.filter_append, gated]
  · exact .refl r

theorem endTransfer_calm (r : Node) (status : ClientStatus) : Calm r (endTransfer r status) :=
  (emitResults_calm ..).trans (.of_core rfl)

theorem advanceTransfer_calm (r : Node) (elapsedMs : Nat) : Calm r (advanceTransfer r elapsedMs) := by
  unfold advanceTransfer
  split
  · exact .refl r
  · split
    · exact (sendMessage_calm r _ _ rfl).trans (endTransfer_calm ..)
    · dsimp only
      split
      · exact endTransfer_calm ..
      · exact .of_core rfl

theorem advanceTimers_calm (r : Node) (elapsedMs : Nat) (contact : Bool) :
    Calm r (advanceTimers r elapsedMs contact) := .of_core rfl

theorem failCatchup_calm (r : Node) : Calm r (failCatchup r) := by
  unfold failCatchup
  exact .ite (.of_core rfl) (.refl r)

theorem finishDrain_calm (r : Node) : Calm r (finishDrain r) := by
  have flushed := raftFlushClientResults_calm r .failed
  have dropped : Calm (raftFlushClientResults r .failed)
      (dropReadIndex (raftFlushClientResults r .failed)) := .of_core rfl
  have ended := (failCatchup_calm (dropReadIndex (raftFlushClientResults r .failed))).trans
    (endTransfer_calm _ .failed)
  have stopped : ∀ node : Node, Calm node { node with phase := .stopped } := fun _ => .of_core rfl
  exact ((flushed.trans dropped).trans ended).trans (stopped _)

theorem enterPhase_calm (r : Node) : Calm r (enterPhase r) := by
  unfold enterPhase
  split
  · exact .of_rest rfl (fun still => nomatch still)
  · exact .of_core rfl
  · exact .refl r

theorem raftStop_calm (r : Node) : Calm r (raftStop r) := by
  unfold raftStop
  split
  · exact .of_core rfl
  · exact .of_core rfl
  · exact .refl r

theorem reapplyStale_calm (r : Node) : Calm r (reapplyStale r).1 := by
  unfold reapplyStale
  split
  · exact raftApplyConfigFromLog_calm r
  · exact .refl r

/-! ## Receivers -/

theorem followLeader_calm (r : Node) (leaderId : Int) : Calm r (followLeader r leaderId) :=
  .of_rest rfl (fun still => nomatch still)

theorem followSnapshot_calm (r : Node) (sender : Int) (rpc : InstallSnapshot) :
    Calm r (followSnapshot r sender rpc) := .of_core rfl

theorem markVote_calm (r : Node) (sender : Int) (granted preVote : Bool) :
    Calm r (markVote r sender granted preVote) := by
  unfold markVote
  exact .ite (.of_core rfl) (.refl r)

theorem followCommit_calm (r : Node) (rpc : AppendEntries) : Calm r (followCommit r rpc) := by
  unfold followCommit
  exact .ite (.of_core rfl) (.refl r)

theorem applyAppended_calm (r : Node) (rpc : AppendEntries) : Calm r (applyAppended r rpc).1 := by
  unfold applyAppended
  split
  · exact raftApplyConfigFromLog_calm r
  · exact .refl r

theorem startSnapshotRecv_calm (r : Node) (rpc : InstallSnapshot) :
    Calm r (startSnapshotRecv r rpc).1 := by
  unfold startSnapshotRecv
  dsimp only
  split
  · exact .of_core rfl
  · split
    · exact .of_core rfl
    · exact .of_core rfl

/-- The flags of a snapshot that is complete: the persist of its metadata is
due. -/
theorem calm_of_needed {r r' : Node} (calm : Calm r { r' with persistNeeded := r.persistNeeded })
    (due : r'.persistNeeded = true) : Calm r r' where
  log := calm.log
  durableIndex := calm.durableIndex
  durableConfirm := calm.durableConfirm
  persistSyncedIndex := calm.persistSyncedIndex
  currentTerm := calm.currentTerm
  votedFor := calm.votedFor
  persistGen := calm.persistGen
  termDirtyGen := calm.termDirtyGen
  needed := fun _ => due
  vote := calm.vote
  voteRequest := calm.voteRequest
  append := calm.append
  reject := calm.reject
  exposing := calm.exposing
  id := calm.id
  standing := calm.standing

theorem takeChunk_calm (r : Node) (rpc : InstallSnapshot) : Calm r (takeChunk r rpc).1 := by
  unfold takeChunk
  split
  · exact .refl r
  · split
    · exact .refl r
    · dsimp only
      split
      · exact calm_of_needed (.of_core rfl) rfl
      · exact .of_core rfl

theorem recvSnapshotChunk_calm (r : Node) (rpc : InstallSnapshot) :
    Calm r (recvSnapshotChunk r rpc).1 := by
  have started := startSnapshotRecv_calm r rpc
  unfold recvSnapshotChunk
  split
  · split
    · rename_i next shape
      rw [shape] at started
      exact started.trans (takeChunk_calm ..)
    · rename_i next shape
      rw [shape] at started
      exact started
  · exact takeChunk_calm ..

theorem joinRound_calm (r : Node) (waiting : Nat) : Calm r (joinRound r waiting) := by
  unfold joinRound
  dsimp only
  split
  · exact .of_core rfl
  · exact .of_core rfl

theorem resolveFrozen_calm (r : Node) (readIndex : Int) : Calm r (resolveFrozen r readIndex) :=
  .of_core rfl

/-! ## Clients and completions -/

theorem raftBarrier_calm (r : Node) (cookie : Nat) : Calm r (raftBarrier r cookie).1 := by
  unfold raftBarrier
  split
  · exact .refl r
  · split
    · split
      · exact .refl r
      · refine Calm.trans ?_ (joinRound_calm ..)
        exact .of_core rfl
    · split
      · exact .refl r
      · exact .of_core rfl
    · exact .refl r

theorem raftTransfer_calm (r : Node) (cookie : Nat) (targetId : Int) :
    Calm r (raftTransfer r cookie targetId).1 := by
  unfold raftTransfer
  split
  · exact .refl r
  · exact .of_core rfl

theorem raftSnapshot_calm (r : Node) : Calm r (raftSnapshot r).1 := by
  unfold raftSnapshot
  split
  · exact .refl r
  · dsimp only
    split
    · exact .of_core rfl
    · exact .of_core rfl

theorem raftSnapshotDataReady_calm (r : Node) (totalSize : Int) :
    Calm r (raftSnapshotDataReady r totalSize).1 := by
  unfold raftSnapshotDataReady
  split
  · exact .refl r
  · exact calm_of_needed (.of_core rfl) rfl

theorem raftSnapshotDataProvided_calm (r : Node) (followerId byteOffset : Int) (size : Nat) :
    Calm r (raftSnapshotDataProvided r followerId byteOffset size).1 := by
  unfold raftSnapshotDataProvided
  split
  · exact .refl r
  · split
    · exact .refl r
    · split
      · exact .refl r
      · refine Calm.of_core ?_
        simp [core, sendMessage, List.filter_append, gated]

theorem commitIfLeader_calm (r : Node) : Calm r (commitIfLeader r) := by
  unfold commitIfLeader
  exact .ite (raftAdvanceCommit_calm r) (.refl r)

theorem retirePending_calm (r : Node) (idx : Int) : Calm r (retirePending r idx) := by
  unfold retirePending
  exact .ite (raftConfigPendingOnlyClear_calm r) (.refl r)

theorem markApplied_calm (r : Node) (appliedIndex : Int) : Calm r (markApplied r appliedIndex) :=
  .of_core rfl

theorem installConfig_calm (r : Node) : Calm r (installConfig r) := .of_core rfl

theorem dropStalePending_calm (r : Node) : Calm r (dropStalePending r) := by
  unfold dropStalePending
  exact .ite (.of_core rfl) (.refl r)

theorem retireClients_calm (r : Node) : Calm r (retireClients r) :=
  (emitResults_calm ..).trans (.of_core rfl)

end Kynovo.Raft.Frame
