import Kynovo.Raft.NodeEdits

/-! The local snapshot that waits to be persisted, and who touches it. A call either
leaves the pending snapshot and its two flags as they are, or gives the snapshot up and
clears both flags; only taking a snapshot and reporting its data do anything else. -/
namespace Kynovo.Raft.SaveFrame
open Kynovo.Raft.NodeEdits

/-- The pending snapshot, whether there is one, and whether its data is complete. -/
def saving (r : Node) : SnapshotMeta × Bool × Bool :=
  (r.snapshotPending, r.snapshotPendingDirty, r.snapshotDataReadyFlag)

/-- The pending snapshot stays as it is, or is given up where that may be. -/
def Leaves (may : Prop) (r r' : Node) : Prop :=
  saving r' = saving r ∨
    (may ∧ r'.snapshotPendingDirty = false ∧ r'.snapshotDataReadyFlag = false)

variable {may : Prop} {r r' : Node}

theorem dirty_of_saving (same : saving r' = saving r) :
    r'.snapshotPendingDirty = r.snapshotPendingDirty := (Prod.mk.inj (Prod.mk.inj same).2).1

theorem Leaves.of_same (same : saving r' = saving r) : Leaves may r r' := .inl same

/-- The same three fields, where the nodes themselves are too large to compare. -/
theorem Leaves.of_fields (pending : r'.snapshotPending = r.snapshotPending)
    (dirty : r'.snapshotPendingDirty = r.snapshotPendingDirty)
    (ready : r'.snapshotDataReadyFlag = r.snapshotDataReadyFlag) : Leaves may r r' := by
  left
  simp only [saving, pending, dirty, ready]

theorem Leaves.of_cleared (allowed : may) (pending : r'.snapshotPendingDirty = false)
    (ready : r'.snapshotDataReadyFlag = false) : Leaves may r r' := .inr ⟨allowed, pending, ready⟩

theorem Leaves.refl (r : Node) : Leaves may r r := .of_same rfl

theorem Leaves.trans {a b c : Node} (first : Leaves may a b) (second : Leaves may b c) : Leaves may a c := by
  rcases second with same | cleared
  · rcases first with before | gone
    · exact .inl (same.trans before)
    · obtain ⟨-, flags⟩ := Prod.mk.inj same
      obtain ⟨pending, ready⟩ := Prod.mk.inj flags
      exact .inr ⟨gone.1, pending.trans gone.2.1, ready.trans gone.2.2⟩
  · exact .inr cleared

/-- A step from a state with the same pending snapshot. -/
theorem Leaves.after {a b c : Node} (step : Leaves may b c) (same : saving b = saving a) :
    Leaves may a c := (Leaves.of_same same).trans step

theorem Leaves.foldl {α : Type} (change : Node → α → Node)
    (each : ∀ r item, Leaves may r (change r item)) (items : List α) (r : Node) :
    Leaves may r (items.foldl change r) := by
  induction items generalizing r with
  | nil => exact .refl r
  | cons item rest ih => exact (each r item).trans (ih (change r item))

theorem Leaves.ite {r a b : Node} {cond : Prop} [Decidable cond] (whenTrue : Leaves may r a)
    (whenFalse : Leaves may r b) : Leaves may r (if cond then a else b) := by
  split
  · exact whenTrue
  · exact whenFalse

theorem sendMessage_leaves (r : Node) (target : Int) (rpc : Rpc) :
    Leaves may r (sendMessage r target rpc) := .of_same rfl

theorem raftLogCut_leaves (r : Node) (idx : Int) : Leaves may r (raftLogCut r idx) := by
  unfold raftLogCut
  split
  · exact .refl r
  · exact .of_same rfl

/-! ## Results and configuration -/

theorem raftResultEmit_leaves (r : Node) (cookie : Nat) (status : ClientStatus) :
    Leaves may r (raftResultEmit r cookie status) := .of_same rfl

theorem emitResults_leaves (r : Node) (cookies : List Nat) (status : ClientStatus) :
    Leaves may r (emitResults r cookies status) :=
  .foldl _ (fun r cookie => raftResultEmit_leaves r cookie status) cookies r

theorem raftConfigPendingOnlyClear_leaves (r : Node) : Leaves may r (raftConfigPendingOnlyClear r) :=
  .of_same rfl

theorem raftConfigPendingClear_leaves (r : Node) : Leaves may r (raftConfigPendingClear r) := .of_same rfl

theorem raftConfigZombieClear_leaves (r : Node) : Leaves may r (raftConfigZombieClear r) := by
  unfold raftConfigZombieClear
  exact .ite (raftConfigPendingOnlyClear_leaves r) (.refl r)

theorem raftFlushClientResults_leaves (r : Node) (status : ClientStatus) :
    Leaves may r (raftFlushClientResults r status) := by
  unfold raftFlushClientResults
  extract_lets barriers clients reads
  have toBarriers : Leaves may r barriers := emitResults_leaves ..
  have toClients : Leaves may barriers clients := emitResults_leaves ..
  have toReads : Leaves may clients reads := emitResults_leaves ..
  exact ((toBarriers.trans toClients).trans toReads).trans (.of_same rfl)

theorem rebuildPeers_leaves (r : Node) : Leaves may r (rebuildPeers r) := by
  unfold rebuildPeers
  exact .ite (.of_same rfl) (.of_same rfl)

theorem raftApplyConfigMasks_leaves (r : Node) (old new learners : List Int) :
    Leaves may r (raftApplyConfigMasks r old new learners).1 := by
  unfold raftApplyConfigMasks
  split
  · exact .of_same rfl
  · split
    · exact .of_same rfl
    · rename_i config _
      exact (Leaves.of_same rfl : Leaves may r { r with config := config }).trans (rebuildPeers_leaves _)

theorem raftApplyConfigFromLog_leaves (r : Node) : Leaves may r (raftApplyConfigFromLog r).1 := by
  unfold raftApplyConfigFromLog
  split
  · exact raftApplyConfigMasks_leaves ..
  · obtain ⟨old, new, learners⟩ := baseMasks r
    dsimp only
    split
    · exact .refl r
    · exact raftApplyConfigMasks_leaves ..

theorem advanceCommitFrom_leaves (r : Node) (steps : Nat) (idx : Int) :
    Leaves may r (advanceCommitFrom r steps idx) := by
  induction steps generalizing r idx with
  | zero => exact .refl r
  | succ steps ih =>
    unfold advanceCommitFrom
    split
    · exact ih r (idx + 1)
    · split
      · exact (Leaves.of_same rfl : Leaves may r { r with
          commitIndex := idx
          leadershipConfirmed := true }).trans (ih _ _)
      · exact .refl r

theorem raftAdvanceCommit_leaves (r : Node) : Leaves may r (raftAdvanceCommit r) :=
  advanceCommitFrom_leaves ..

/-! ## The leader's bookkeeping -/

theorem finishPromoted_leaves (r : Node) (id : Int) : Leaves may r (finishPromoted r id) := by
  unfold finishPromoted
  split
  · exact .refl r
  · split
    · exact .refl r
    · split
      · exact .of_same rfl
      · exact .refl r

theorem raftDeferredCatchupAbort_leaves (r : Node) : Leaves may r (raftDeferredCatchupAbort r) :=
  .of_same rfl

theorem setPending_leaves (r : Node) (new learners : List Int) : Leaves may r (setPending r new learners) :=
  .of_same rfl

theorem admitChange_leaves (r : Node) : Leaves may r (admitChange r) := by
  unfold admitChange
  exact (Leaves.ite (raftConfigPendingClear_leaves r) (.refl r)).trans (raftConfigZombieClear_leaves _)

theorem tickJointElapsed_leaves (r : Node) (elapsedMs : Nat) : Leaves may r (tickJointElapsed r elapsedMs) := by
  unfold tickJointElapsed
  exact .ite (.of_same rfl) (.of_same rfl)

theorem tickContact_leaves (r : Node) : Leaves may r (tickContact r) := by
  unfold tickContact
  exact .ite (.of_same rfl) (.refl r)

theorem tickReadRound_leaves (r : Node) : Leaves may r (tickReadRound r) := by
  unfold tickReadRound
  exact .ite (.of_same rfl) (.refl r)

theorem raftQueueAppendEntries_leaves (r : Node) (position : Nat) :
    Leaves may r (raftQueueAppendEntries r position) := by
  unfold raftQueueAppendEntries
  split
  · exact .refl r
  · split
    · exact .ite (.refl r) (.of_same rfl)
    · exact .of_same rfl

theorem tickHeartbeat_leaves (r : Node) : Leaves may r (tickHeartbeat r) := by
  unfold tickHeartbeat
  split
  · have started : Leaves may r (startHeartbeat r) := .of_same rfl
    exact (started.trans (.foldl _ raftQueueAppendEntries_leaves _ _)).trans (.of_same rfl)
  · exact .refl r

theorem tickReadIndex_leaves (r : Node) : Leaves may r (tickReadIndex r) := by
  unfold tickReadIndex
  split
  · exact .of_same rfl
  · exact .refl r

theorem tickLearner_leaves (elapsedMs : Nat) (r : Node) (position : Nat) :
    Leaves may r (tickLearner elapsedMs r position) := by
  unfold tickLearner
  split
  · exact .refl r
  · refine .ite (.refl r) (.ite (.of_same rfl) (.ite (.ite (.ite ?_ ?_) (.of_same rfl)) (.of_same rfl)))
    · exact .of_same rfl
    · exact .of_same rfl

theorem tickSend_leaves (r : Node) (elapsedMs : Nat) : Leaves may r (tickSend r elapsedMs) :=
  ((tickHeartbeat_leaves r).trans (tickReadIndex_leaves _)).trans
    (.foldl _ (tickLearner_leaves elapsedMs) _ _)

/-! ## Applying, reading and timers -/

theorem enqueueApplyFrom_leaves (r : Node) (steps : Nat) : Leaves may r (enqueueApplyFrom r steps) := by
  induction steps generalizing r with
  | zero => exact .refl r
  | succ steps ih =>
    unfold enqueueApplyFrom
    split
    · exact .refl r
    · exact (Leaves.of_same rfl : Leaves may r (offerNext r)).trans (ih _)

theorem raftEnqueueApply_leaves (r : Node) : Leaves may r (raftEnqueueApply r) := enqueueApplyFrom_leaves ..

theorem raftCheckBarriers_leaves (r : Node) : Leaves may r (raftCheckBarriers r) :=
  (emitResults_leaves ..).trans (.of_same rfl)

theorem expireFollowerRead_leaves (r : Node) (elapsedMs : Nat) :
    Leaves may r (expireFollowerRead r elapsedMs) := by
  unfold expireFollowerRead
  split
  · exact .refl r
  · dsimp only
    split
    · exact (emitResults_leaves ..).trans (.of_same rfl)
    · exact .of_same rfl

theorem expireBarriers_leaves (r : Node) (elapsedMs : Nat) : Leaves may r (expireBarriers r elapsedMs) := by
  unfold expireBarriers
  split
  · split
    · exact (emitResults_leaves ..).trans (.of_same rfl)
    · exact .of_same rfl
  · exact .of_same rfl

theorem startFollowerRead_leaves (r : Node) : Leaves may r (startFollowerRead r) := by
  unfold startFollowerRead
  split
  · exact .of_same rfl
  · exact .refl r

theorem endTransfer_leaves (r : Node) (status : ClientStatus) : Leaves may r (endTransfer r status) :=
  (emitResults_leaves ..).trans (.of_same rfl)

theorem advanceTransfer_leaves (r : Node) (elapsedMs : Nat) : Leaves may r (advanceTransfer r elapsedMs) := by
  unfold advanceTransfer
  split
  · exact .refl r
  · split
    · exact (sendMessage_leaves r _ _).trans (endTransfer_leaves ..)
    · dsimp only
      split
      · exact endTransfer_leaves ..
      · exact .of_same rfl

theorem advanceTimers_leaves (r : Node) (elapsedMs : Nat) (contact : Bool) :
    Leaves may r (advanceTimers r elapsedMs contact) := .of_same rfl

theorem failCatchup_leaves (r : Node) : Leaves may r (failCatchup r) := by
  unfold failCatchup
  exact .ite (.of_same rfl) (.refl r)

theorem finishDrain_leaves (r : Node) : Leaves may r (finishDrain r) := by
  have flushed : Leaves may _ _ := raftFlushClientResults_leaves r .failed
  have dropped : Leaves may (raftFlushClientResults r .failed)
      (dropReadIndex (raftFlushClientResults r .failed)) := .of_same rfl
  have ended : Leaves may _ _ := (failCatchup_leaves (dropReadIndex (raftFlushClientResults r .failed))).trans
    (endTransfer_leaves _ .failed)
  have stopped : ∀ node : Node, Leaves may node { node with phase := .stopped } :=
    fun _ => .of_same rfl
  exact ((flushed.trans dropped).trans ended).trans (stopped _)

theorem enterPhase_leaves (r : Node) (allowed : r.phase = .stopping → may) :
    Leaves may r (enterPhase r) := by
  unfold enterPhase
  split
  · rename_i stopping
    exact .of_cleared (allowed stopping) rfl rfl
  · exact .of_same rfl
  · exact .refl r

theorem raftStop_leaves (r : Node) : Leaves may r (raftStop r) := by
  unfold raftStop
  split
  · exact .of_same rfl
  · exact .of_same rfl
  · exact .refl r

theorem reapplyStale_leaves (r : Node) : Leaves may r (reapplyStale r).1 := by
  unfold reapplyStale
  split
  · exact raftApplyConfigFromLog_leaves r
  · exact .refl r

/-! ## Receivers -/

theorem followLeader_leaves (r : Node) (leaderId : Int) : Leaves may r (followLeader r leaderId) :=
  .of_same rfl

theorem followSnapshot_leaves (r : Node) (sender : Int) (rpc : InstallSnapshot) :
    Leaves may r (followSnapshot r sender rpc) := .of_same rfl

theorem markVote_leaves (r : Node) (sender : Int) (granted preVote : Bool) :
    Leaves may r (markVote r sender granted preVote) := by
  unfold markVote
  exact .ite (.of_same rfl) (.refl r)

theorem followCommit_leaves (r : Node) (rpc : AppendEntries) : Leaves may r (followCommit r rpc) := by
  unfold followCommit
  exact .ite (.of_same rfl) (.refl r)

theorem applyAppended_leaves (r : Node) (rpc : AppendEntries) : Leaves may r (applyAppended r rpc).1 := by
  unfold applyAppended
  split
  · exact raftApplyConfigFromLog_leaves r
  · exact .refl r

theorem startSnapshotRecv_leaves (r : Node) (rpc : InstallSnapshot) :
    Leaves may r (startSnapshotRecv r rpc).1 := by
  unfold startSnapshotRecv
  dsimp only
  split
  · exact .of_same rfl
  · split
    · exact .of_same rfl
    · exact .of_same rfl

theorem takeChunk_leaves (r : Node) (rpc : InstallSnapshot) : Leaves may r (takeChunk r rpc).1 := by
  unfold takeChunk
  split
  · exact .refl r
  · split
    · exact .refl r
    · dsimp only
      split
      · exact .of_same rfl
      · exact .of_same rfl

theorem recvSnapshotChunk_leaves (r : Node) (rpc : InstallSnapshot) :
    Leaves may r (recvSnapshotChunk r rpc).1 := by
  have started : Leaves may _ _ := startSnapshotRecv_leaves r rpc
  unfold recvSnapshotChunk
  split
  · split
    · rename_i next shape
      rw [shape] at started
      exact started.trans (takeChunk_leaves ..)
    · rename_i next shape
      rw [shape] at started
      exact started
  · exact takeChunk_leaves ..

theorem joinRound_leaves (r : Node) (waiting : Nat) : Leaves may r (joinRound r waiting) := by
  unfold joinRound
  dsimp only
  split
  · exact .of_same rfl
  · exact .of_same rfl

theorem resolveFrozen_leaves (r : Node) (readIndex : Int) : Leaves may r (resolveFrozen r readIndex) :=
  .of_same rfl

/-! ## Clients and completions -/

theorem raftBarrier_leaves (r : Node) (cookie : Nat) : Leaves may r (raftBarrier r cookie).1 := by
  unfold raftBarrier
  split
  · exact .refl r
  · split
    · split
      · exact .refl r
      · refine Leaves.trans ?_ (joinRound_leaves ..)
        exact .of_same rfl
    · split
      · exact .refl r
      · exact .of_same rfl
    · exact .refl r

theorem raftTransfer_leaves (r : Node) (cookie : Nat) (targetId : Int) :
    Leaves may r (raftTransfer r cookie targetId).1 := by
  unfold raftTransfer
  split
  · exact .refl r
  · exact .of_same rfl

theorem raftSnapshotDataProvided_leaves (r : Node) (followerId byteOffset : Int) (size : Nat) :
    Leaves may r (raftSnapshotDataProvided r followerId byteOffset size).1 := by
  unfold raftSnapshotDataProvided
  split
  · exact .refl r
  · split
    · exact .refl r
    · split
      · exact .refl r
      · exact .of_same rfl

theorem commitIfLeader_leaves (r : Node) : Leaves may r (commitIfLeader r) := by
  unfold commitIfLeader
  exact .ite (raftAdvanceCommit_leaves r) (.refl r)

theorem retirePending_leaves (r : Node) (idx : Int) : Leaves may r (retirePending r idx) := by
  unfold retirePending
  exact .ite (raftConfigPendingOnlyClear_leaves r) (.refl r)

theorem markApplied_leaves (r : Node) (appliedIndex : Int) : Leaves may r (markApplied r appliedIndex) :=
  .of_same rfl

theorem installConfig_leaves (r : Node) : Leaves may r (installConfig r) := .of_same rfl

theorem dropStalePending_leaves (r : Node)
    (allowed : r.snapshotPending.lastIndex < r.snapshot.lastIndex → may) :
    Leaves may r (dropStalePending r) := by
  unfold dropStalePending
  split
  · rename_i stale
    exact .of_cleared (allowed stale) rfl rfl
  · exact .refl r

theorem retireClients_leaves (r : Node) : Leaves may r (retireClients r) :=
  (emitResults_leaves ..).trans (.of_same rfl)

/-! ## Configuration entries -/

theorem appendFinal_leaves (r : Node) (voters : List Int) : Leaves may r (appendFinal r voters).1 := by
  have added : Leaves may r (addFinal r voters) := .of_same rfl
  have applied : Leaves may _ _ := added.trans (raftApplyConfigFromLog_leaves _)
  unfold appendFinal
  split
  · rename_i shape
    rw [shape] at applied
    exact applied.trans (.of_same rfl)
  · rename_i shape
    rw [shape] at applied
    exact (applied.trans (raftLogCut_leaves _ _)).trans (.of_same rfl)

theorem raftFinalizeJoint_leaves (r : Node) (jointIdx : Int) (cmNew : List Int) :
    Leaves may r (raftFinalizeJoint r jointIdx cmNew).1 := by
  have final : Leaves may r (appendFinal r cmNew).1 := appendFinal_leaves r cmNew
  unfold raftFinalizeJoint
  dsimp only
  split
  · refine Leaves.trans ?_ (raftApplyConfigFromLog_leaves _)
    exact .of_same rfl
  · split
    · rename_i shape
      rw [shape] at final
      exact final.trans (.of_same rfl)
    · exact final

theorem raftMaybeFinalizeJoint_leaves (r : Node) : Leaves may r (raftMaybeFinalizeJoint r).1 := by
  unfold raftMaybeFinalizeJoint
  split
  · exact .refl r
  · split
    · exact .refl r
    · split
      · exact .refl r
      · split
        · exact .refl r
        · split
          · exact .refl r
          · exact raftFinalizeJoint_leaves ..

theorem settleJoint_leaves (r : Node) : Leaves may r (settleJoint r) := by
  unfold settleJoint
  split
  · exact .refl r
  · dsimp only
    split
    · split
      · exact appendFinal_leaves ..
      · exact .refl r
    · split
      · exact appendFinal_leaves ..
      · split
        · exact .of_same rfl
        · exact .refl r

theorem raftBecomeLeader_leaves (r : Node) : Leaves may r (raftBecomeLeader r) := by
  have fields : Leaves may r (leaderFields r) :=
    .of_same rfl
  exact fields.trans (settleJoint_leaves _)

theorem raftCommitConfigEntry_leaves (r : Node) (cookie : Nat) :
    Leaves may r (raftCommitConfigEntry r cookie).1 := by
  have added : Leaves may r (addChange r) := .of_same rfl
  have applied : Leaves may _ _ := (added.trans (.foldl _ finishPromoted_leaves r.config.pendingNew _)).trans
    (raftApplyConfigFromLog_leaves _)
  unfold raftCommitConfigEntry
  dsimp only
  split
  · rename_i shape
    rw [shape] at applied
    exact applied.trans (.of_same rfl)
  · rename_i shape
    rw [shape] at applied
    exact (applied.trans (raftLogCut_leaves _ _)).trans (raftConfigPendingOnlyClear_leaves _)

theorem raftMaybeAdvanceReconfig_leaves (r : Node) :
    Leaves may r (raftMaybeAdvanceReconfig r).1 := by
  unfold raftMaybeAdvanceReconfig
  split
  · exact .refl r
  · split
    · rename_i new learners _ _
      have committed : Leaves may r
          (raftCommitConfigEntry (setPending r new learners) r.catchup.cookie).1 :=
        Leaves.trans (setPending_leaves r new learners) (raftCommitConfigEntry_leaves ..)
      split
      · rename_i shape
        rw [shape] at committed
        exact committed.trans (.of_same rfl)
      · exact committed
    · exact .of_same rfl
    · exact .refl r

theorem raftReconfig_leaves (r : Node) (cookie : Nat) (ids : List Int) :
    Leaves may r (raftReconfig r cookie ids).1 := by
  have admitted : Leaves may r (admitChange r) := admitChange_leaves r
  unfold raftReconfig
  split
  · exact .refl r
  · split
    · exact .refl r
    · split
      · exact raftResultEmit_leaves ..
      · dsimp only
        split
        · exact admitted
        · split
          · split
            · exact admitted.trans (raftConfigPendingClear_leaves _)
            · exact admitted.trans (Leaves.trans (setPending_leaves ..)
                (raftCommitConfigEntry_leaves ..))
          · exact admitted.trans (.of_same rfl)

/-! ## The leader's tick -/

theorem catchupRound_leaves (r : Node) (elapsedMs : Nat) : Leaves may r (catchupRound r elapsedMs).1 := by
  have advanced : Leaves may r (raftMaybeAdvanceReconfig r).1 := raftMaybeAdvanceReconfig_leaves r
  unfold catchupRound
  split
  · exact .of_same rfl
  · split
    · split
      · split
        · split
          · rename_i shape
            rw [shape] at advanced
            exact advanced
          · rename_i shape
            rw [shape] at advanced
            exact advanced
        · exact raftDeferredCatchupAbort_leaves r
      · exact .of_same rfl
    · exact .of_same rfl

theorem tickCatchup_leaves (r : Node) (elapsedMs : Nat) : Leaves may r (tickCatchup r elapsedMs).1 := by
  unfold tickCatchup
  split
  · exact .refl r
  · have round : Leaves may r (catchupRound { r with
        catchup.totalElapsed := raftElapsedAdd r.catchup.totalElapsed elapsedMs } elapsedMs).1 := by
      refine Leaves.trans ?_ (catchupRound_leaves ..)
      exact .of_same rfl
    split
    · rename_i shape
      rw [shape] at round
      exact round
    · rename_i shape
      rw [shape] at round
      split
      · exact round.trans (raftDeferredCatchupAbort_leaves _)
      · exact round

/-! ## Elections -/

/-- A step-down gives the pending snapshot up. -/
theorem raftStepDown_leaves (r : Node) (term newLeaderId : Int)
    (allowed : termOutOfRange term = false → may) :
    Leaves may r (raftStepDown r term newLeaderId) := by
  unfold raftStepDown
  split
  · exact .refl r
  · rename_i inRange
    dsimp only
    have fields : Leaves may r (stepDownFields r term newLeaderId) :=
      .of_cleared (allowed (Bool.not_eq_true _ ▸ inRange)) rfl rfl
    have flushed : Leaves may _ _ := fields.trans (raftFlushClientResults_leaves _ .redirect)
    have unread : ∀ node : Node, Leaves may node { node with readBarrierGen := 0 } :=
      fun _ => .of_same rfl
    exact (flushed.trans (unread _)).trans (emitResults_leaves ..)

theorem raftBecomeCandidate_leaves (r : Node) : Leaves may r (raftBecomeCandidate r).1 := by
  unfold raftBecomeCandidate
  split
  · exact .refl r
  · split
    · exact .refl r
    · dsimp only
      split
      · exact .of_same rfl
      · exact .of_same rfl

theorem raftStartPreVote_leaves (r : Node) : Leaves may r (raftStartPreVote r).1 := by
  unfold raftStartPreVote
  dsimp only
  split
  · split
    · exact (raftBecomeCandidate_leaves _).after rfl
    · exact .of_same rfl
  · exact .of_same rfl

theorem campaign_leaves (r : Node) : Leaves may r (campaign r).1 := by
  unfold campaign
  split
  · exact raftStartPreVote_leaves r
  · exact .refl r

theorem leaveTerm_leaves (r : Node) : Leaves may r (leaveTerm r) := by
  unfold leaveTerm
  split
  · exact .of_same rfl
  · exact .refl r

theorem abortJoint_leaves (r : Node) (allowed : may) : Leaves may r (abortJoint r) := by
  have failed : Leaves may r (failAbandoned r) := (emitResults_leaves ..).trans (.of_same rfl)
  have cut : Leaves may r (raftLogCut (failAbandoned r) (r.config.index - 1)) :=
    failed.trans (raftLogCut_leaves (failAbandoned r) (r.config.index - 1))
  have left : Leaves may r (leaveTerm (raftLogCut (failAbandoned r) (r.config.index - 1))) :=
    cut.trans (leaveTerm_leaves (raftLogCut (failAbandoned r) (r.config.index - 1)))
  unfold abortJoint
  dsimp only
  exact (left.trans (raftStepDown_leaves _ _ _ (fun _ => allowed))).trans (raftApplyConfigFromLog_leaves _)

/-- The leader's tick ends in a step-down: a joint configuration is given up, or contact
with a quorum is lost. -/
def stepsDown (r : Node) (elapsedMs : Nat) : Bool :=
  match tickCatchup r elapsedMs with
  | (_, true) => false
  | (r, false) =>
    jointAbortDue r elapsedMs ||
      let ticked := tickReadRound (tickContact (tickJointElapsed r elapsedMs))
      decide (ticked.timers.electionDeadline ≤ ticked.timers.electionElapsed)

theorem tickLead_leaves (r : Node) (elapsedMs : Nat)
    (allowed : (tickReadRound (tickContact (tickJointElapsed r elapsedMs))).timers.electionDeadline ≤
      (tickReadRound (tickContact (tickJointElapsed r elapsedMs))).timers.electionElapsed → may) :
    Leaves may r (tickLead r elapsedMs) := by
  have quorum : Leaves may r (tickReadRound (tickContact (tickJointElapsed r elapsedMs))) :=
    ((tickJointElapsed_leaves r elapsedMs).trans (tickContact_leaves _)).trans
      (tickReadRound_leaves _)
  unfold tickLead
  dsimp only
  split
  · rename_i lost
    exact quorum.trans (raftStepDown_leaves _ _ _ (fun _ => allowed lost))
  · have finalized : Leaves may _ _ := (quorum.trans (raftAdvanceCommit_leaves _)).trans
      (raftMaybeFinalizeJoint_leaves _)
    split
    · rename_i shape
      rw [shape] at finalized
      exact finalized.trans (tickSend_leaves ..)
    · rename_i shape
      rw [shape] at finalized
      exact finalized

theorem raftLeaderTick_leaves (r : Node) (elapsedMs : Nat)
    (allowed : stepsDown r elapsedMs = true → may) : Leaves may r (raftLeaderTick r elapsedMs) := by
  have caught : Leaves may _ _ := tickCatchup_leaves r elapsedMs
  unfold stepsDown at allowed
  unfold raftLeaderTick
  split
  · rename_i shape
    rw [shape] at caught
    exact caught
  · rename_i shape
    rw [shape] at caught allowed
    dsimp only at allowed
    split
    · rename_i due
      exact caught.trans (abortJoint_leaves _ (allowed (by simp [due])))
    · exact caught.trans (tickLead_leaves _ _ (fun lost => allowed (by simp [lost])))

theorem raftAdvanceInner_leaves (r : Node) (elapsedMs : Nat)
    (allowed : ∀ leader, tickState r = some leader → stepsDown leader elapsedMs = true → may) :
    Leaves may r (raftAdvanceInner r elapsedMs) := by
  have stale : Leaves may _ _ := reapplyStale_leaves r
  unfold raftAdvanceInner
  split
  · rename_i applied appliedShape
    rw [appliedShape] at stale
    have campaigned : Leaves may _ _ := stale.trans (campaign_leaves applied)
    split
    · rename_i elected electedShape
      rw [electedShape] at campaigned
      have ticked : Leaves may elected (tickIfLeader elected elapsedMs) := by
        unfold tickIfLeader
        split
        · rename_i leads
          have reached : tickState r = some elected := by
            simp [tickState, campaignState, appliedShape, electedShape, leads]
          exact raftLeaderTick_leaves elected elapsedMs (allowed elected reached)
        · exact .refl elected
      exact (campaigned.trans ticked).trans
        ((raftEnqueueApply_leaves _).trans (raftCheckBarriers_leaves _))
    · rename_i refusedShape
      rw [refusedShape] at campaigned
      exact campaigned
  · rename_i shape
    rw [shape] at stale
    exact stale

theorem advanceReplies_leaves (r : Node) (elapsedMs : Nat) : Leaves may r (advanceReplies r elapsedMs) := by
  have timed : Leaves may _ _ := (advanceTimers_leaves r elapsedMs (r.state ≠ .leader)).trans
    ((expireFollowerRead_leaves _ elapsedMs).trans (expireBarriers_leaves _ elapsedMs))
  have transferred : Leaves may _ _ := timed.trans
    ((startFollowerRead_leaves _).trans (advanceTransfer_leaves _ elapsedMs))
  have votes : ∀ r, Leaves may r (releaseVote r) := by
    intro r
    unfold releaseVote
    split
    · exact .of_same rfl
    · exact .refl r
  have appends : ∀ r, Leaves may r (releaseAppend r) := by
    intro r
    unfold releaseAppend settleAppend reportAppend
    repeat' split
    all_goals exact .of_same rfl
  have rejects : ∀ r, Leaves may r (releaseReject r) := by
    intro r
    unfold releaseReject
    split
    · exact .of_same rfl
    · exact .refl r
  have requests : ∀ r, Leaves may r (releaseVoteRequest r) := by
    intro r
    unfold releaseVoteRequest
    split
    · exact .of_same rfl
    · exact .refl r
  exact ((transferred.trans (votes _)).trans (appends _)).trans ((rejects _).trans (requests _))

theorem advanceOutput_leaves (r : Node) (phaseStopped : Bool) :
    Leaves may r (advanceOutput r phaseStopped).1 := .of_fields rfl rfl rfl

theorem advanceDrain_leaves (r : Node) (elapsedMs : Nat) : Leaves may r (advanceDrain r elapsedMs).1 := by
  have drained : Leaves may _ _ := (advanceTimers_leaves r elapsedMs true).trans
    ((raftEnqueueApply_leaves _).trans (raftCheckBarriers_leaves _))
  unfold advanceDrain
  dsimp only
  split
  · exact (drained.trans (finishDrain_leaves _)).trans (advanceOutput_leaves ..)
  · exact drained.trans (advanceOutput_leaves ..)

/-- The calls of `raft_advance` that give the pending snapshot up. -/
def advanceDrops (r : Node) (elapsedMs : Nat) : Bool :=
  r.phase == .stopping || (tickState (advanceReplies (enterPhase r) elapsedMs)).any
    (fun leader => stepsDown leader elapsedMs)

/-- The pending snapshot in the state from which `raft_advance` builds its output. -/
theorem raftAdvance_leaves (r : Node) (elapsedMs : Nat)
    (allowed : advanceDrops r elapsedMs = true → may) :
    Leaves may r (raftAdvance r elapsedMs).1 := by
  have entered : Leaves may r (enterPhase r) :=
    enterPhase_leaves r (fun stopping => allowed (by simp [advanceDrops, stopping]))
  unfold raftAdvance
  dsimp only
  split
  · exact entered.trans (advanceDrain_leaves ..)
  · exact entered
  · refine ((entered.trans (advanceReplies_leaves _ elapsedMs)).trans
      (raftAdvanceInner_leaves _ elapsedMs ?_)).trans (advanceOutput_leaves ..)
    intro leader reached down
    exact allowed (by simp [advanceDrops, reached, down])

/-! ## Peer messages -/

theorem adoptTerm_leaves (r : Node) (term leaderId : Int)
    (allowed : newerTerm r term = true → may) : Leaves may r (adoptTerm r term leaderId) := by
  unfold adoptTerm
  split
  · rename_i newer
    exact raftStepDown_leaves _ _ _ (fun inRange => allowed (newerTerm_intro newer inRange))
  · exact .refl r

theorem raftRecvRequestVote_leaves (r : Node) (sender : Int) (rpc : RequestVote)
    (allowed : takesTerm r sender (.requestVote rpc) = true → may) :
    Leaves may r (raftRecvRequestVote r sender rpc).1 := by
  unfold raftRecvRequestVote
  split
  · exact .refl r
  · rename_i valid
    split
    · exact .refl r
    · rename_i contact
      simp only [Bool.or_eq_true, not_or, Bool.not_eq_true, Bool.not_eq_false'] at valid
      obtain ⟨⟨fromNode, fromCandidate⟩, -⟩ := valid
      have adopted : Leaves may r (adoptTerm r rpc.term 0) := by
        refine adoptTerm_leaves r rpc.term 0 (fun newer => allowed ?_)
        simp only [takesTerm, fromNode, fromCandidate, newer, Bool.and_true, Bool.true_and]
        simpa only [Bool.not_eq_true', Bool.not_eq_true] using contact
      dsimp only
      split
      · exact adopted
      · split
        · exact adopted
        · split
          · exact adopted
          · split
            · exact adopted.trans (.of_same rfl)
            · exact adopted.trans (.of_same rfl)

theorem raftRecvRequestVoteResult_leaves (r : Node) (sender : Int) (result : RequestVoteResult)
    (allowed : takesTerm r sender (.requestVoteResult result) = true → may) :
    Leaves may r (raftRecvRequestVoteResult r sender result).1 := by
  have counted : ∀ r, Leaves may r (countPreVote r) := by
    intro r
    unfold countPreVote
    exact .ite ((raftBecomeCandidate_leaves _).after rfl) (.refl r)
  have won : ∀ r, Leaves may r (countVote r) := fun r => .ite (raftBecomeLeader_leaves r) (.refl r)
  unfold raftRecvRequestVoteResult
  split
  · exact .refl r
  · rename_i fromNode
    simp only [Bool.not_eq_true, Bool.not_eq_false'] at fromNode
    split
    · exact .refl r
    · rename_i electing
      split
      · rename_i newer
        refine raftStepDown_leaves r result.term 0 (fun inRange => allowed ?_)
        simp only [takesTerm, fromNode, newerTerm_intro newer inRange, Bool.and_true, Bool.true_and]
        simp only [Bool.and_eq_true, Bool.not_eq_true', decide_eq_true_eq, not_and] at electing
        cases pre : r.inPreVote with
        | true => rfl
        | false => simpa using electing pre
      · split
        · exact .refl r
        · split
          · exact .refl r
          · split
            · split
              · exact (markVote_leaves ..).trans (counted _)
              · exact .refl r
            · split
              · exact .refl r
              · exact (markVote_leaves ..).trans (won _)

theorem replyAppend_leaves (r : Node) (rpc : AppendEntries) : Leaves may r (replyAppend r rpc) := by
  unfold replyAppend
  exact .ite (.of_same rfl) (.ite (.of_same rfl) (.refl r))

theorem replyFail_leaves (r : Node) (rpc : AppendEntries) (hint : Int) :
    Leaves may r (replyFail r rpc hint) := by
  unfold replyFail
  dsimp only
  exact .ite (.of_same rfl) (.of_same rfl)

theorem acceptAppend_leaves (r : Node) (rpc : AppendEntries) : Leaves may r (acceptAppend r rpc).1 := by
  have applied : Leaves may _ _ := applyAppended_leaves r rpc
  unfold acceptAppend
  split
  · rename_i shape
    rw [shape] at applied
    exact (applied.trans (followCommit_leaves _ rpc)).trans ((replyAppend_leaves _ rpc).after rfl)
  · rename_i shape
    rw [shape] at applied
    exact applied

theorem appendToLog_leaves (r : Node) (rpc : AppendEntries) : Leaves may r (appendToLog r rpc).1 := by
  have cut : ∀ cutTo, Leaves may r (cutFor r cutTo) := by
    intro cutTo
    cases cutTo with
    | none => exact .refl r
    | some idx => exact raftLogCut_leaves r idx
  unfold appendToLog
  split
  · exact replyFail_leaves ..
  · split
    · exact .refl r
    · exact replyFail_leaves ..
    · exact acceptAppend_leaves r rpc
    · dsimp only
      split
      · exact (cut _).trans ((acceptAppend_leaves _ rpc).after rfl)
      · exact (cut _).trans (.of_same rfl)

theorem raftRecvAppendEntries_leaves (r : Node) (sender : Int) (rpc : AppendEntries)
    (allowed : takesTerm r sender (.appendEntries rpc) = true → may) :
    Leaves may r (raftRecvAppendEntries r sender rpc).1 := by
  unfold raftRecvAppendEntries
  split
  · exact .refl r
  · rename_i valid
    simp only [Bool.or_eq_true, not_or, Bool.not_eq_true, Bool.not_eq_false'] at valid
    obtain ⟨⟨fromNode, fromLeader⟩, -⟩ := valid
    have adopted : Leaves may r (adoptTerm r rpc.term rpc.leaderId) :=
      adoptTerm_leaves r rpc.term rpc.leaderId
        (fun newer => allowed (by simp [takesTerm, fromNode, fromLeader, newer]))
    dsimp only
    split
    · exact adopted
    · split
      · exact adopted
      · exact (adopted.trans (followLeader_leaves _ _)).trans (appendToLog_leaves _ _)

theorem recvReply_leaves (r : Node) (sender term : Int) (handle : Peer → Node)
    (allowed : (raftIdValid sender && r.state == .leader && newerTerm r term) = true → may)
    (handled : ∀ peer, Leaves may r (handle peer)) : Leaves may r (recvReply r sender term handle).1 := by
  unfold recvReply
  split
  · exact .refl r
  · rename_i fromNode
    simp only [Bool.not_eq_true, Bool.not_eq_false'] at fromNode
    split
    · exact .refl r
    · rename_i leads
      split
      · exact .refl r
      · split
        · rename_i newer
          exact raftStepDown_leaves _ _ _ (fun inRange => allowed (by
            simp [fromNode, not_not.mp leads, newerTerm_intro newer inRange]))
        · split
          · exact .refl r
          · split
            · exact .refl r
            · exact handled _

theorem acked_leaves (r : Node) (peers : List Peer) (isLearner : Bool) :
    Leaves may r (if isLearner then { r with peers } else raftAdvanceCommit { r with peers }) :=
  .ite (.of_same rfl) ((raftAdvanceCommit_leaves _).after rfl)

theorem raftRecvInstallSnapshot_leaves (r : Node) (sender : Int) (rpc : InstallSnapshot)
    (allowed : takesTerm r sender (.installSnapshot rpc) = true → may) :
    Leaves may r (raftRecvInstallSnapshot r sender rpc).1 := by
  unfold raftRecvInstallSnapshot
  split
  · exact .refl r
  · rename_i valid
    simp only [Bool.or_eq_true, not_or, Bool.not_eq_true, Bool.not_eq_false'] at valid
    obtain ⟨⟨fromNode, fromLeader⟩, -⟩ := valid
    split
    · exact .of_same rfl
    · rename_i timely
      simp only [Bool.or_eq_true, decide_eq_true_eq, not_or, not_lt] at timely
      have adopted : Leaves may r (adoptTerm r rpc.term rpc.leaderId) :=
        adoptTerm_leaves r rpc.term rpc.leaderId
          (fun newer => allowed (by simp [takesTerm, fromNode, fromLeader, newer, timely.2]))
      dsimp only
      split
      · exact adopted
      · exact adopted.trans ((followLeader_leaves _ _).trans
          ((followSnapshot_leaves _ sender rpc).trans (recvSnapshotChunk_leaves _ rpc)))

theorem raftRecvReadIndex_leaves (r : Node) (sender : Int) (rpc : ReadIndexReq)
    (allowed : takesTerm r sender (.readIndex rpc) = true → may) :
    Leaves may r (raftRecvReadIndex r sender rpc).1 := by
  unfold raftRecvReadIndex
  split
  · exact .refl r
  · rename_i valid
    split
    · rename_i newer
      split
      · exact .refl r
      · refine raftStepDown_leaves r rpc.term 0 (fun inRange => allowed ?_)
        simp only [Bool.or_eq_true, not_or, Bool.not_eq_true, Bool.not_eq_false', decide_eq_true_eq,
          ne_eq, not_not] at valid
        simp [takesTerm, valid.1.1, valid.1.2, newerTerm_intro newer inRange]
    · split
      · exact .refl r
      · exact (joinRound_leaves _ _).after rfl

theorem raftRecvReadIndexResult_leaves (r : Node) (sender : Int) (result : ReadIndexResult)
    (allowed : takesTerm r sender (.readIndexResult result) = true → may) :
    Leaves may r (raftRecvReadIndexResult r sender result).1 := by
  unfold raftRecvReadIndexResult
  split
  · exact .refl r
  · rename_i valid
    split
    · rename_i newer
      refine raftStepDown_leaves r result.term 0 (fun inRange => allowed ?_)
      simp only [Bool.or_eq_true, not_or, Bool.not_eq_true, Bool.not_eq_false', decide_eq_true_eq,
        ne_eq, not_not] at valid
      simp [takesTerm, valid.1.1.1, valid.1.1.2, valid.1.2, newerTerm_intro newer inRange]
    · split
      · exact .refl r
      · exact resolveFrozen_leaves r _

theorem raftRecvTimeoutNow_leaves (r : Node) (sender : Int) (rpc : TimeoutNow)
    (allowed : takesTerm r sender (.timeoutNow rpc) = true → may) :
    Leaves may r (raftRecvTimeoutNow r sender rpc).1 := by
  unfold raftRecvTimeoutNow
  split
  · exact .refl r
  · rename_i valid
    simp only [Bool.or_eq_true, not_or, Bool.not_eq_true, Bool.not_eq_false', decide_eq_true_eq,
      not_lt] at valid
    obtain ⟨⟨fromNode, -⟩, -⟩ := valid
    have adopted : Leaves may r (adoptTerm r rpc.term rpc.leaderId) :=
      adoptTerm_leaves r rpc.term rpc.leaderId
        (fun newer => allowed (by simp [takesTerm, fromNode, newer]))
    dsimp only
    split
    · exact adopted.trans (raftBecomeCandidate_leaves _)
    · exact adopted

theorem raftRecvfromPeer_leaves (r : Node) (msg : PeerMessage)
    (allowed : takesTerm r msg.sender msg.rpc = true → may) :
    Leaves may r (raftRecvfromPeer r msg).1 := by
  obtain ⟨sender, target, rpc⟩ := msg
  unfold raftRecvfromPeer
  split
  · exact .refl r
  · cases rpc with
    | requestVote rpc => exact raftRecvRequestVote_leaves r sender rpc allowed
    | requestVoteResult result => exact raftRecvRequestVoteResult_leaves r sender result allowed
    | appendEntries rpc => exact raftRecvAppendEntries_leaves r sender rpc allowed
    | appendEntriesResult result =>
      exact recvReply_leaves _ _ _ _ allowed (fun peer => acked_leaves r _ peer.isLearner)
    | installSnapshot rpc => exact raftRecvInstallSnapshot_leaves r sender rpc allowed
    | installSnapshotResult result =>
      exact recvReply_leaves _ _ _ _ allowed (fun peer => acked_leaves r _ peer.isLearner)
    | readIndex rpc => exact raftRecvReadIndex_leaves r sender rpc allowed
    | readIndexResult result => exact raftRecvReadIndexResult_leaves r sender result allowed
    | timeoutNow rpc => exact raftRecvTimeoutNow_leaves r sender rpc allowed

/-! ## Client requests -/

theorem admitLearnerChange_leaves (r : Node) : Leaves may r (admitLearnerChange r) := by
  have cleared : Leaves may _ _ := raftConfigZombieClear_leaves r
  unfold admitLearnerChange
  dsimp only
  split
  · exact cleared.trans (raftConfigPendingClear_leaves _)
  · exact cleared

theorem raftAddLearner_leaves (r : Node) (cookie : Nat) (learnerId : Int) :
    Leaves may r (raftAddLearner r cookie learnerId).1 := by
  unfold raftAddLearner
  split
  · exact .refl r
  · split
    · exact raftConfigZombieClear_leaves r
    · dsimp only
      have committed : ∀ learners, Leaves may r (raftCommitConfigEntry
          (setPending (admitLearnerChange r) (admitLearnerChange r).config.old learners) cookie).1 :=
        fun learners => ((admitLearnerChange_leaves r).trans (setPending_leaves _ _ learners)).trans
          (raftCommitConfigEntry_leaves ..)
      split
      · rename_i shape
        have appended : Leaves may _ _ := committed (insertLearner (admitLearnerChange r).config.learners learnerId)
        rw [shape] at appended
        exact appended.trans (.of_same rfl)
      · exact committed _

theorem raftRemoveLearner_leaves (r : Node) (cookie : Nat) (learnerId : Int) :
    Leaves may r (raftRemoveLearner r cookie learnerId).1 := by
  unfold raftRemoveLearner
  split
  · exact .refl r
  · split
    · exact raftConfigZombieClear_leaves r
    · exact ((admitLearnerChange_leaves r).trans (setPending_leaves ..)).trans
        (raftCommitConfigEntry_leaves ..)

theorem raftRecvfromClient_leaves (r : Node) (msg : ClientMessage) :
    Leaves may r (raftRecvfromClient r msg).1 := by
  unfold raftRecvfromClient
  cases msg with
  | submit commands =>
    dsimp only
    unfold raftSubmit
    split
    · exact .refl r
    · split
      · exact .refl r
      · exact .of_same rfl
  | barrier cookie => exact raftBarrier_leaves ..
  | reconfig cookie ids => exact raftReconfig_leaves ..
  | addLearner cookie learnerId => exact raftAddLearner_leaves ..
  | removeLearner cookie learnerId => exact raftRemoveLearner_leaves ..
  | transfer cookie targetId => exact raftTransfer_leaves ..

/-! ## Completions -/

theorem commitConfig_leaves (r : Node) (idx : Int) (entry : Entry) :
    Leaves may r (commitConfig r idx entry).1 := by
  have retired : Leaves may _ _ := retirePending_leaves r idx
  unfold commitConfig
  dsimp only
  split
  · split
    · exact retired.trans (raftFinalizeJoint_leaves ..)
    · exact retired
  · exact retired.trans (raftApplyConfigFromLog_leaves _)

theorem scanCommitted_leaves (steps : Nat) (r : Node) (selfRemoved : Bool) (idx : Int) :
    Leaves may r (scanCommitted r selfRemoved steps idx).1 := by
  induction steps generalizing r selfRemoved idx with
  | zero => exact .refl r
  | succ steps ih =>
    unfold scanCommitted
    split
    · exact ih ..
    · rename_i entry _
      have committed : Leaves may _ _ := commitConfig_leaves r idx entry
      split
      · rename_i shape
        rw [shape] at committed
        exact committed.trans (ih ..)
      · rename_i shape
        rw [shape] at committed
        exact committed

theorem installLog_leaves (r : Node) : Leaves may r (installLog r) := by
  unfold installLog
  dsimp only
  split
  · exact .of_same rfl
  · exact .of_same rfl

theorem installState_leaves (r : Node) : Leaves may r (installState r) := by
  have logged : Leaves may r (installLog (installConfig r)) :=
    (installConfig_leaves r).trans (installLog_leaves _)
  refine logged.trans (Leaves.trans ?_ (Leaves.trans (rebuildPeers_leaves
    { installLog (installConfig r) with
      lastApplied := max r.lastApplied r.snapshotRecv.lastIndex
      applyOffered := max r.applyOffered (max r.lastApplied r.snapshotRecv.lastIndex)
      commitIndex := max r.commitIndex (installLog (installConfig r)).log.lastIncludedIndex }) ?_))
  · exact .of_same rfl
  · exact .of_same rfl

theorem rebuildPeers_snapshot (r : Node) : (rebuildPeers r).snapshot = r.snapshot := by
  unfold rebuildPeers
  split
  · rfl
  · rfl

theorem raftApplyConfigMasks_snapshot (r : Node) (old new learners : List Int) :
    (raftApplyConfigMasks r old new learners).1.snapshot = r.snapshot := by
  unfold raftApplyConfigMasks
  split
  · rfl
  · split
    · rfl
    · exact rebuildPeers_snapshot _

/-- Putting a configuration in force leaves the snapshot as it is. -/
theorem raftApplyConfigFromLog_snapshot (r : Node) :
    (raftApplyConfigFromLog r).1.snapshot = r.snapshot := by
  unfold raftApplyConfigFromLog
  split
  · exact raftApplyConfigMasks_snapshot ..
  · obtain ⟨old, new, learners⟩ := baseMasks r
    dsimp only
    split
    · rfl
    · exact raftApplyConfigMasks_snapshot ..

theorem Leaves.pending (leaves : Leaves False r r') : r'.snapshotPending = r.snapshotPending := by
  rcases leaves with same | ⟨never, -⟩
  · exact (Prod.mk.inj same).1
  · exact never.elim

theorem installSnapshot_leaves (r : Node)
    (allowed : r.snapshotPending.lastIndex < r.snapshotRecv.lastIndex → may) :
    Leaves may r (installSnapshot r).1 := by
  unfold installSnapshot
  split
  · exact .of_same rfl
  · have applied : ∀ {may}, Leaves may r (raftApplyConfigFromLog (installState r)).1 :=
      (installState_leaves r).trans (raftApplyConfigFromLog_leaves _)
    have kept := Leaves.pending applied
    have taken := raftApplyConfigFromLog_snapshot (installState r)
    split
    · rename_i shape
      rw [shape] at applied kept taken
      have answered : ∀ r, Leaves may r (answerInstall r) := by
        intro r
        unfold answerInstall
        split
        · exact .of_same rfl
        · exact .refl r
      refine (applied.trans (dropStalePending_leaves _ (fun stale => allowed ?_))).trans (answered _)
      rw [kept, taken] at stale
      exact stale
    · rename_i shape
      rw [shape] at applied
      exact applied

/-- A leader has applied its own removal. -/
def leavesRemoved (r : Node) (selfRemoved : Bool) (appliedIndex : Int) : Bool :=
  match installIfDue r appliedIndex with
  | (installed, 0) => selfRemoved && decide ((retireClients installed).state = .leader)
  | _ => false

/-- The calls of `raft_apply_complete` that give the pending snapshot up: a newer snapshot
is installed, or a leader has applied its own removal. -/
def applyDrops (r : Node) (appliedIndex : Int) : Bool :=
  match applyScan r appliedIndex with
  | (scanned, 0, selfRemoved) =>
    (installDue scanned appliedIndex &&
      decide (scanned.snapshotPending.lastIndex < scanned.snapshotRecv.lastIndex)) ||
      leavesRemoved (markScanned scanned) selfRemoved appliedIndex
  | _ => false

theorem raftApplyComplete_leaves (r : Node) (appliedIndex : Int)
    (allowed : applyDrops r appliedIndex = true → may) :
    Leaves may r (raftApplyComplete r appliedIndex).1 := by
  have scanned : Leaves may r (applyScan r appliedIndex).1 :=
    (markApplied_leaves r appliedIndex).trans (scanCommitted_leaves ..)
  unfold applyDrops at allowed
  unfold raftApplyComplete
  split
  · exact .refl r
  · split
    · rename_i next selfRemoved shape
      rw [shape] at scanned allowed
      have due : Leaves may (markScanned next) (installIfDue (markScanned next) appliedIndex).1 := by
        unfold installIfDue
        split
        · rename_i waits
          have waited : installDue next appliedIndex = true := waits
          exact installSnapshot_leaves _ (fun newer => allowed (by
            have behind : next.snapshotPending.lastIndex < next.snapshotRecv.lastIndex := newer
            simp [waited, behind]))
        · exact .refl _
      have installed : Leaves may _ _ := scanned.trans (due.after rfl)
      split
      · rename_i done installShape
        rw [installShape] at installed
        refine (installed.trans (retireClients_leaves _)).trans ?_
        unfold leaveIfRemoved
        split
        · rename_i removed
          refine raftStepDown_leaves _ _ _ (fun _ => allowed ?_)
          have leaves : leavesRemoved (markScanned next) selfRemoved appliedIndex = true := by
            unfold leavesRemoved
            rw [installShape]
            exact removed
          simp [leaves]
        · exact .refl _
      · rename_i installShape
        rw [installShape] at installed
        exact installed
    · rename_i shape
      rw [shape] at scanned
      exact scanned

theorem completeView_leaves (r : Node) (view : Wal.Record.Persist)
    (allowed : view.snapshotDirty = true → may) : Leaves may r (completeView r view) := by
  have reported : Leaves may r (raftPersistComplete r (viewDurable view)).1 := by
    unfold raftPersistComplete
    split
    · exact .refl r
    · exact (commitIfLeader_leaves _).after rfl
  have completed : may → ∀ r, Leaves may r (raftSnapshotPersistComplete r (viewDurable view)).1 := by
    intro given r
    unfold raftSnapshotPersistComplete
    split
    · exact .refl r
    · split
      · split
        · exact .refl r
        · exact .of_cleared given rfl rfl
      · exact .refl r
  unfold completeView
  dsimp only
  split
  · rename_i dirty
    exact reported.trans (completed (allowed dirty) _)
  · exact reported

end Kynovo.Raft.SaveFrame
