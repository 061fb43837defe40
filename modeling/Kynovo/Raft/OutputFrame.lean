import Kynovo.Raft.NodeEdits

/-! The output buffers between two bundles. Every call leaves the client results and the
messages that wait there, and puts its own behind them. The exception are AppendEntries: a
heartbeat supersedes those that were not taken yet, so they are left out here. -/
namespace Kynovo.Raft.OutputFrame
open Kynovo.Raft.NodeEdits

/-- The messages that wait until a bundle takes them. -/
def lastingMsgs (r : Node) : List PeerMessage := r.msgs.filter (fun message => !isAppend message)

/-- What waits stays, with more behind it. -/
structure Puts (r r' : Node) : Prop where
  results : r.results <+: r'.results
  msgs : lastingMsgs r <+: lastingMsgs r'

/-- The buffers of a call that does not stop the node. -/
structure Grows (r r' : Node) : Prop extends Puts r r' where
  stays : r'.phase = .stopped → r.phase = .stopped

variable {r r' : Node}

theorem Puts.trans {a b c : Node} (first : Puts a b) (second : Puts b c) : Puts a c :=
  ⟨first.results.trans second.results, first.msgs.trans second.msgs⟩

theorem waits_of_eq {α : Type} {before after : List α} (same : after = before) :
    before <+: after := by
  subst same
  exact List.prefix_rfl

theorem Puts.of_same (same : (r'.results, r'.msgs) = (r.results, r.msgs)) : Puts r r' := by
  obtain ⟨results, msgs⟩ := Prod.mk.inj same
  constructor
  · exact waits_of_eq results
  · exact waits_of_eq (by rw [lastingMsgs, lastingMsgs, msgs])

theorem Grows.of_same (same : (r'.results, r'.msgs, r'.phase) = (r.results, r.msgs, r.phase)) :
    Grows r r' := by
  obtain ⟨results, rest⟩ := Prod.mk.inj same
  obtain ⟨msgs, phase⟩ := Prod.mk.inj rest
  exact ⟨.of_same (by rw [results, msgs]), fun stopped => phase ▸ stopped⟩

/-- The phase moved, but the node is not stopped. -/
theorem Grows.of_moved (same : (r'.results, r'.msgs) = (r.results, r.msgs))
    (runs : r'.phase ≠ .stopped) : Grows r r' := ⟨.of_same same, fun stopped => absurd stopped runs⟩

/-- Messages were queued. -/
theorem Grows.of_sent {sent : List PeerMessage} (results : r'.results = r.results)
    (msgs : r'.msgs = r.msgs ++ sent) (phase : r'.phase = r.phase) : Grows r r' := by
  refine ⟨⟨?_, ?_⟩, fun stopped => phase ▸ stopped⟩
  · exact waits_of_eq results
  · rw [lastingMsgs, lastingMsgs, msgs, List.filter_append]
    exact List.prefix_append _ _

/-- Results were reported. -/
theorem Grows.of_reported {new : List ClientResult} (results : r'.results = r.results ++ new)
    (msgs : r'.msgs = r.msgs) (phase : r'.phase = r.phase) : Grows r r' := by
  refine ⟨⟨?_, ?_⟩, fun stopped => phase ▸ stopped⟩
  · rw [results]
    exact List.prefix_append _ _
  · exact waits_of_eq (by rw [lastingMsgs, lastingMsgs, msgs])

theorem Grows.refl (r : Node) : Grows r r := .of_same rfl

theorem Grows.trans {a b c : Node} (first : Grows a b) (second : Grows b c) : Grows a c :=
  ⟨first.toPuts.trans second.toPuts, fun stopped => first.stays (second.stays stopped)⟩

/-- A step from a state with the same buffers. -/
theorem Grows.after {a b c : Node} (step : Grows b c)
    (same : (b.results, b.msgs, b.phase) = (a.results, a.msgs, a.phase)) : Grows a c :=
  (Grows.of_same same).trans step

theorem Grows.foldl {α : Type} (change : Node → α → Node)
    (each : ∀ r item, Grows r (change r item)) (items : List α) (r : Node) :
    Grows r (items.foldl change r) := by
  induction items generalizing r with
  | nil => exact .refl r
  | cons item rest ih => exact (each r item).trans (ih (change r item))

theorem Grows.ite {r a b : Node} {cond : Prop} [Decidable cond] (whenTrue : Grows r a)
    (whenFalse : Grows r b) : Grows r (if cond then a else b) := by
  split
  · exact whenTrue
  · exact whenFalse

theorem sendMessage_grows (r : Node) (target : Int) (rpc : Rpc) :
    Grows r (sendMessage r target rpc) := .of_sent rfl rfl rfl

theorem raftLogCut_grows (r : Node) (idx : Int) : Grows r (raftLogCut r idx) := by
  unfold raftLogCut
  split
  · exact .refl r
  · exact .of_same rfl

/-! ## Results and configuration -/

theorem raftResultEmit_grows (r : Node) (cookie : Nat) (status : ClientStatus) :
    Grows r (raftResultEmit r cookie status) := .of_reported rfl rfl rfl

theorem emitResults_grows (r : Node) (cookies : List Nat) (status : ClientStatus) :
    Grows r (emitResults r cookies status) :=
  .foldl _ (fun r cookie => raftResultEmit_grows r cookie status) cookies r

theorem raftConfigPendingOnlyClear_grows (r : Node) : Grows r (raftConfigPendingOnlyClear r) :=
  .of_same rfl

theorem raftConfigPendingClear_grows (r : Node) : Grows r (raftConfigPendingClear r) := .of_same rfl

theorem raftConfigZombieClear_grows (r : Node) : Grows r (raftConfigZombieClear r) := by
  unfold raftConfigZombieClear
  exact .ite (raftConfigPendingOnlyClear_grows r) (.refl r)

theorem raftFlushClientResults_grows (r : Node) (status : ClientStatus) :
    Grows r (raftFlushClientResults r status) := by
  unfold raftFlushClientResults
  extract_lets barriers clients reads
  have toBarriers : Grows r barriers := emitResults_grows ..
  have toClients : Grows barriers clients := emitResults_grows ..
  have toReads : Grows clients reads := emitResults_grows ..
  exact ((toBarriers.trans toClients).trans toReads).trans (.of_same rfl)

theorem rebuildPeers_grows (r : Node) : Grows r (rebuildPeers r) := by
  unfold rebuildPeers
  exact .ite (.of_same rfl) (.of_same rfl)

theorem raftApplyConfigMasks_grows (r : Node) (old new learners : List Int) :
    Grows r (raftApplyConfigMasks r old new learners).1 := by
  unfold raftApplyConfigMasks
  split
  · exact .of_same rfl
  · split
    · exact .of_same rfl
    · rename_i config _
      exact (Grows.of_same rfl : Grows r { r with config := config }).trans (rebuildPeers_grows _)

theorem raftApplyConfigFromLog_grows (r : Node) : Grows r (raftApplyConfigFromLog r).1 := by
  unfold raftApplyConfigFromLog
  split
  · exact raftApplyConfigMasks_grows ..
  · obtain ⟨old, new, learners⟩ := baseMasks r
    dsimp only
    split
    · exact .refl r
    · exact raftApplyConfigMasks_grows ..

theorem advanceCommitFrom_grows (r : Node) (steps : Nat) (idx : Int) :
    Grows r (advanceCommitFrom r steps idx) := by
  induction steps generalizing r idx with
  | zero => exact .refl r
  | succ steps ih =>
    unfold advanceCommitFrom
    split
    · exact ih r (idx + 1)
    · split
      · exact (Grows.of_same rfl : Grows r { r with
          commitIndex := idx
          leadershipConfirmed := true }).trans (ih _ _)
      · exact .refl r

theorem raftAdvanceCommit_grows (r : Node) : Grows r (raftAdvanceCommit r) :=
  advanceCommitFrom_grows ..

/-! ## The leader's bookkeeping -/

theorem finishPromoted_grows (r : Node) (id : Int) : Grows r (finishPromoted r id) := by
  unfold finishPromoted
  split
  · exact .refl r
  · split
    · exact .refl r
    · split
      · exact .of_reported rfl rfl rfl
      · exact .refl r

theorem raftDeferredCatchupAbort_grows (r : Node) : Grows r (raftDeferredCatchupAbort r) :=
  .of_reported rfl rfl rfl

theorem setPending_grows (r : Node) (new learners : List Int) : Grows r (setPending r new learners) :=
  .of_same rfl

theorem admitChange_grows (r : Node) : Grows r (admitChange r) := by
  unfold admitChange
  exact (Grows.ite (raftConfigPendingClear_grows r) (.refl r)).trans (raftConfigZombieClear_grows _)

theorem tickJointElapsed_grows (r : Node) (elapsedMs : Nat) : Grows r (tickJointElapsed r elapsedMs) := by
  unfold tickJointElapsed
  exact .ite (.of_same rfl) (.of_same rfl)

theorem tickContact_grows (r : Node) : Grows r (tickContact r) := by
  unfold tickContact
  exact .ite (.of_same rfl) (.refl r)

theorem tickReadRound_grows (r : Node) : Grows r (tickReadRound r) := by
  unfold tickReadRound
  exact .ite (.of_same rfl) (.refl r)

theorem raftQueueAppendEntries_grows (r : Node) (position : Nat) :
    Grows r (raftQueueAppendEntries r position) := by
  unfold raftQueueAppendEntries
  split
  · exact .refl r
  · split
    · exact .ite (.refl r) (.of_same rfl)
    · exact .of_sent rfl rfl rfl

/-- Only AppendEntries are superseded. -/
theorem startHeartbeat_grows (r : Node) : Grows r (startHeartbeat r) := by
  refine ⟨⟨List.prefix_rfl, ?_⟩, id⟩
  · have kept : lastingMsgs (startHeartbeat r) = lastingMsgs r := by
      simp only [lastingMsgs, startHeartbeat, List.filter_filter, Bool.and_self]
    exact waits_of_eq kept

theorem tickHeartbeat_grows (r : Node) : Grows r (tickHeartbeat r) := by
  unfold tickHeartbeat
  split
  · have started : Grows r (startHeartbeat r) := startHeartbeat_grows r
    exact (started.trans (.foldl _ raftQueueAppendEntries_grows _ _)).trans (.of_same rfl)
  · exact .refl r

theorem tickReadIndex_grows (r : Node) : Grows r (tickReadIndex r) := by
  unfold tickReadIndex
  split
  · exact .of_sent rfl rfl rfl
  · exact .refl r

theorem tickLearner_grows (elapsedMs : Nat) (r : Node) (position : Nat) :
    Grows r (tickLearner elapsedMs r position) := by
  unfold tickLearner
  split
  · exact .refl r
  · refine .ite (.refl r) (.ite (.of_same rfl) (.ite (.ite (.ite ?_ ?_) (.of_same rfl)) (.of_same rfl)))
    · exact .of_reported rfl rfl rfl
    · exact .of_reported rfl rfl rfl

theorem tickSend_grows (r : Node) (elapsedMs : Nat) : Grows r (tickSend r elapsedMs) :=
  ((tickHeartbeat_grows r).trans (tickReadIndex_grows _)).trans
    (.foldl _ (tickLearner_grows elapsedMs) _ _)

/-! ## Applying, reading and timers -/

theorem enqueueApplyFrom_grows (r : Node) (steps : Nat) : Grows r (enqueueApplyFrom r steps) := by
  induction steps generalizing r with
  | zero => exact .refl r
  | succ steps ih =>
    unfold enqueueApplyFrom
    split
    · exact .refl r
    · exact (Grows.of_same rfl : Grows r (offerNext r)).trans (ih _)

theorem raftEnqueueApply_grows (r : Node) : Grows r (raftEnqueueApply r) := enqueueApplyFrom_grows ..

theorem raftCheckBarriers_grows (r : Node) : Grows r (raftCheckBarriers r) :=
  (emitResults_grows ..).trans (.of_same rfl)

theorem expireFollowerRead_grows (r : Node) (elapsedMs : Nat) :
    Grows r (expireFollowerRead r elapsedMs) := by
  unfold expireFollowerRead
  split
  · exact .refl r
  · dsimp only
    split
    · exact (emitResults_grows ..).trans (.of_same rfl)
    · exact .of_same rfl

theorem expireBarriers_grows (r : Node) (elapsedMs : Nat) : Grows r (expireBarriers r elapsedMs) := by
  unfold expireBarriers
  split
  · split
    · exact (emitResults_grows ..).trans (.of_same rfl)
    · exact .of_same rfl
  · exact .of_same rfl

theorem startFollowerRead_grows (r : Node) : Grows r (startFollowerRead r) := by
  unfold startFollowerRead
  split
  · exact .of_sent rfl rfl rfl
  · exact .refl r

theorem endTransfer_grows (r : Node) (status : ClientStatus) : Grows r (endTransfer r status) :=
  (emitResults_grows ..).trans (.of_same rfl)

theorem advanceTransfer_grows (r : Node) (elapsedMs : Nat) : Grows r (advanceTransfer r elapsedMs) := by
  unfold advanceTransfer
  split
  · exact .refl r
  · split
    · exact (sendMessage_grows r _ _).trans (endTransfer_grows ..)
    · dsimp only
      split
      · exact endTransfer_grows ..
      · exact .of_same rfl

theorem advanceTimers_grows (r : Node) (elapsedMs : Nat) (contact : Bool) :
    Grows r (advanceTimers r elapsedMs contact) := .of_same rfl

theorem failCatchup_grows (r : Node) : Grows r (failCatchup r) := by
  unfold failCatchup
  exact .ite (.of_reported rfl rfl rfl) (.refl r)

/-- The last reports of a node that stops. -/
theorem finishDrain_puts (r : Node) : Puts r (finishDrain r) := by
  have flushed : Grows _ _ := raftFlushClientResults_grows r .failed
  have dropped : Grows (raftFlushClientResults r .failed)
      (dropReadIndex (raftFlushClientResults r .failed)) := .of_same rfl
  have ended : Grows _ _ := (failCatchup_grows (dropReadIndex (raftFlushClientResults r .failed))).trans
    (endTransfer_grows _ .failed)
  exact ((flushed.trans dropped).trans ended).toPuts.trans (.of_same rfl)

theorem enterPhase_grows (r : Node) :
    Grows r (enterPhase r) := by
  unfold enterPhase
  split
  · exact .of_moved rfl nofun
  · exact .of_moved rfl nofun
  · exact .refl r

theorem raftStop_grows (r : Node) : Grows r (raftStop r) := by
  unfold raftStop
  split
  · exact .of_moved rfl nofun
  · exact .of_moved rfl nofun
  · exact .refl r

theorem reapplyStale_grows (r : Node) : Grows r (reapplyStale r).1 := by
  unfold reapplyStale
  split
  · exact raftApplyConfigFromLog_grows r
  · exact .refl r

/-! ## Receivers -/

theorem followLeader_grows (r : Node) (leaderId : Int) : Grows r (followLeader r leaderId) :=
  .of_same rfl

theorem followSnapshot_grows (r : Node) (sender : Int) (rpc : InstallSnapshot) :
    Grows r (followSnapshot r sender rpc) := .of_same rfl

theorem markVote_grows (r : Node) (sender : Int) (granted preVote : Bool) :
    Grows r (markVote r sender granted preVote) := by
  unfold markVote
  exact .ite (.of_same rfl) (.refl r)

theorem followCommit_grows (r : Node) (rpc : AppendEntries) : Grows r (followCommit r rpc) := by
  unfold followCommit
  exact .ite (.of_same rfl) (.refl r)

theorem applyAppended_grows (r : Node) (rpc : AppendEntries) : Grows r (applyAppended r rpc).1 := by
  unfold applyAppended
  split
  · exact raftApplyConfigFromLog_grows r
  · exact .refl r

theorem startSnapshotRecv_grows (r : Node) (rpc : InstallSnapshot) :
    Grows r (startSnapshotRecv r rpc).1 := by
  unfold startSnapshotRecv
  dsimp only
  split
  · exact .of_same rfl
  · split
    · exact .of_same rfl
    · exact .of_same rfl

theorem takeChunk_grows (r : Node) (rpc : InstallSnapshot) : Grows r (takeChunk r rpc).1 := by
  unfold takeChunk
  split
  · exact .refl r
  · split
    · exact .refl r
    · dsimp only
      split
      · exact .of_same rfl
      · exact .of_same rfl

theorem recvSnapshotChunk_grows (r : Node) (rpc : InstallSnapshot) :
    Grows r (recvSnapshotChunk r rpc).1 := by
  have started : Grows _ _ := startSnapshotRecv_grows r rpc
  unfold recvSnapshotChunk
  split
  · split
    · rename_i next shape
      rw [shape] at started
      exact started.trans (takeChunk_grows ..)
    · rename_i next shape
      rw [shape] at started
      exact started
  · exact takeChunk_grows ..

theorem joinRound_grows (r : Node) (waiting : Nat) : Grows r (joinRound r waiting) := by
  unfold joinRound
  dsimp only
  split
  · exact .of_same rfl
  · exact .of_same rfl

theorem resolveFrozen_grows (r : Node) (readIndex : Int) : Grows r (resolveFrozen r readIndex) :=
  .of_same rfl

/-! ## Clients and completions -/

theorem raftBarrier_grows (r : Node) (cookie : Nat) : Grows r (raftBarrier r cookie).1 := by
  unfold raftBarrier
  split
  · exact .refl r
  · split
    · split
      · exact .refl r
      · refine Grows.trans ?_ (joinRound_grows ..)
        exact .of_same rfl
    · split
      · exact .refl r
      · exact .of_same rfl
    · exact .refl r

theorem raftTransfer_grows (r : Node) (cookie : Nat) (targetId : Int) :
    Grows r (raftTransfer r cookie targetId).1 := by
  unfold raftTransfer
  split
  · exact .refl r
  · exact .of_same rfl

theorem raftSnapshotDataProvided_grows (r : Node) (followerId byteOffset : Int) (size : Nat) :
    Grows r (raftSnapshotDataProvided r followerId byteOffset size).1 := by
  unfold raftSnapshotDataProvided
  split
  · exact .refl r
  · split
    · exact .refl r
    · split
      · exact .refl r
      · exact .of_sent rfl rfl rfl

theorem commitIfLeader_grows (r : Node) : Grows r (commitIfLeader r) := by
  unfold commitIfLeader
  exact .ite (raftAdvanceCommit_grows r) (.refl r)

theorem retirePending_grows (r : Node) (idx : Int) : Grows r (retirePending r idx) := by
  unfold retirePending
  exact .ite (raftConfigPendingOnlyClear_grows r) (.refl r)

theorem markApplied_grows (r : Node) (appliedIndex : Int) : Grows r (markApplied r appliedIndex) :=
  .of_same rfl

theorem installConfig_grows (r : Node) : Grows r (installConfig r) := .of_same rfl

theorem dropStalePending_grows (r : Node) :
    Grows r (dropStalePending r) := by
  unfold dropStalePending
  split
  · exact .of_same rfl
  · exact .refl r

theorem retireClients_grows (r : Node) : Grows r (retireClients r) :=
  (emitResults_grows ..).trans (.of_same rfl)

/-! ## Configuration entries -/

theorem appendFinal_grows (r : Node) (voters : List Int) : Grows r (appendFinal r voters).1 := by
  have added : Grows r (addFinal r voters) := .of_same rfl
  have applied : Grows _ _ := added.trans (raftApplyConfigFromLog_grows _)
  unfold appendFinal
  split
  · rename_i shape
    rw [shape] at applied
    exact applied.trans (.of_same rfl)
  · rename_i shape
    rw [shape] at applied
    exact (applied.trans (raftLogCut_grows _ _)).trans (.of_same rfl)

theorem raftFinalizeJoint_grows (r : Node) (jointIdx : Int) (cmNew : List Int) :
    Grows r (raftFinalizeJoint r jointIdx cmNew).1 := by
  have final : Grows r (appendFinal r cmNew).1 := appendFinal_grows r cmNew
  unfold raftFinalizeJoint
  dsimp only
  split
  · refine Grows.trans ?_ (raftApplyConfigFromLog_grows _)
    exact .of_same rfl
  · split
    · rename_i shape
      rw [shape] at final
      exact final.trans (.of_same rfl)
    · exact final

theorem raftMaybeFinalizeJoint_grows (r : Node) : Grows r (raftMaybeFinalizeJoint r).1 := by
  unfold raftMaybeFinalizeJoint
  split
  · exact .refl r
  · split
    · exact .refl r
    · split
      · exact .refl r
      · split
        · exact .refl r
        · split
          · exact .refl r
          · exact raftFinalizeJoint_grows ..

theorem settleJoint_grows (r : Node) : Grows r (settleJoint r) := by
  unfold settleJoint
  split
  · exact .refl r
  · dsimp only
    split
    · split
      · exact appendFinal_grows ..
      · exact .refl r
    · split
      · exact appendFinal_grows ..
      · split
        · exact .of_same rfl
        · exact .refl r

theorem raftBecomeLeader_grows (r : Node) : Grows r (raftBecomeLeader r) := by
  have fields : Grows r (leaderFields r) :=
    .of_same rfl
  exact fields.trans (settleJoint_grows _)

theorem raftCommitConfigEntry_grows (r : Node) (cookie : Nat) :
    Grows r (raftCommitConfigEntry r cookie).1 := by
  have added : Grows r (addChange r) := .of_same rfl
  have applied : Grows _ _ := (added.trans (.foldl _ finishPromoted_grows r.config.pendingNew _)).trans
    (raftApplyConfigFromLog_grows _)
  unfold raftCommitConfigEntry
  dsimp only
  split
  · rename_i shape
    rw [shape] at applied
    exact applied.trans (.of_same rfl)
  · rename_i shape
    rw [shape] at applied
    exact (applied.trans (raftLogCut_grows _ _)).trans (raftConfigPendingOnlyClear_grows _)

theorem raftMaybeAdvanceReconfig_grows (r : Node) :
    Grows r (raftMaybeAdvanceReconfig r).1 := by
  unfold raftMaybeAdvanceReconfig
  split
  · exact .refl r
  · split
    · rename_i new learners _ _
      have committed : Grows r
          (raftCommitConfigEntry (setPending r new learners) r.catchup.cookie).1 :=
        Grows.trans (setPending_grows r new learners) (raftCommitConfigEntry_grows ..)
      split
      · rename_i shape
        rw [shape] at committed
        exact committed.trans (.of_same rfl)
      · exact committed
    · exact .of_same rfl
    · exact .refl r

theorem raftReconfig_grows (r : Node) (cookie : Nat) (ids : List Int) :
    Grows r (raftReconfig r cookie ids).1 := by
  have admitted : Grows r (admitChange r) := admitChange_grows r
  unfold raftReconfig
  split
  · exact .refl r
  · split
    · exact .refl r
    · split
      · exact raftResultEmit_grows ..
      · dsimp only
        split
        · exact admitted
        · split
          · split
            · exact admitted.trans (raftConfigPendingClear_grows _)
            · exact admitted.trans (Grows.trans (setPending_grows ..)
                (raftCommitConfigEntry_grows ..))
          · exact admitted.trans (.of_same rfl)

/-! ## The leader's tick -/

theorem catchupRound_grows (r : Node) (elapsedMs : Nat) : Grows r (catchupRound r elapsedMs).1 := by
  have advanced : Grows r (raftMaybeAdvanceReconfig r).1 := raftMaybeAdvanceReconfig_grows r
  unfold catchupRound
  split
  · exact .of_same rfl
  · split
    · split
      · split
        · split
          · rename_i shape
            rw [shape] at advanced
            exact advanced
          · rename_i shape
            rw [shape] at advanced
            exact advanced
        · exact raftDeferredCatchupAbort_grows r
      · exact .of_same rfl
    · exact .of_same rfl

theorem tickCatchup_grows (r : Node) (elapsedMs : Nat) : Grows r (tickCatchup r elapsedMs).1 := by
  unfold tickCatchup
  split
  · exact .refl r
  · have round : Grows r (catchupRound { r with
        catchup.totalElapsed := raftElapsedAdd r.catchup.totalElapsed elapsedMs } elapsedMs).1 := by
      refine Grows.trans ?_ (catchupRound_grows ..)
      exact .of_same rfl
    split
    · rename_i shape
      rw [shape] at round
      exact round
    · rename_i shape
      rw [shape] at round
      split
      · exact round.trans (raftDeferredCatchupAbort_grows _)
      · exact round

/-! ## Elections -/

theorem raftStepDown_grows (r : Node) (term newLeaderId : Int) :
    Grows r (raftStepDown r term newLeaderId) := by
  unfold raftStepDown
  split
  · exact .refl r
  · dsimp only
    have fields : Grows r (stepDownFields r term newLeaderId) := .of_same rfl
    have flushed : Grows _ _ := fields.trans (raftFlushClientResults_grows _ .redirect)
    exact flushed.trans ((emitResults_grows ..).after rfl)

theorem raftBecomeCandidate_grows (r : Node) : Grows r (raftBecomeCandidate r).1 := by
  unfold raftBecomeCandidate
  split
  · exact .refl r
  · split
    · exact .refl r
    · dsimp only
      split
      · exact .of_same rfl
      · exact .of_same rfl

theorem raftStartPreVote_grows (r : Node) : Grows r (raftStartPreVote r).1 := by
  unfold raftStartPreVote
  dsimp only
  split
  · split
    · exact (raftBecomeCandidate_grows _).after rfl
    · exact .of_same rfl
  · exact .of_sent rfl rfl rfl

theorem campaign_grows (r : Node) : Grows r (campaign r).1 := by
  unfold campaign
  split
  · exact raftStartPreVote_grows r
  · exact .refl r

theorem leaveTerm_grows (r : Node) : Grows r (leaveTerm r) := by
  unfold leaveTerm
  split
  · exact .of_same rfl
  · exact .of_same rfl

theorem abortJoint_grows (r : Node) : Grows r (abortJoint r) := by
  have failed : Grows r (failAbandoned r) := (emitResults_grows ..).trans (.of_same rfl)
  have cut : Grows r (raftLogCut (failAbandoned r) (r.config.index - 1)) :=
    failed.trans (raftLogCut_grows (failAbandoned r) (r.config.index - 1))
  have left : Grows r (leaveTerm (raftLogCut (failAbandoned r) (r.config.index - 1))) :=
    cut.trans (leaveTerm_grows (raftLogCut (failAbandoned r) (r.config.index - 1)))
  unfold abortJoint
  dsimp only
  exact (left.trans (raftStepDown_grows _ _ _)).trans (raftApplyConfigFromLog_grows _)

theorem tickLead_grows (r : Node) (elapsedMs : Nat) :
    Grows r (tickLead r elapsedMs) := by
  have quorum : Grows r (tickReadRound (tickContact (tickJointElapsed r elapsedMs))) :=
    ((tickJointElapsed_grows r elapsedMs).trans (tickContact_grows _)).trans
      (tickReadRound_grows _)
  unfold tickLead
  dsimp only
  split
  · exact quorum.trans (raftStepDown_grows _ _ _)
  · have finalized : Grows _ _ := (quorum.trans (raftAdvanceCommit_grows _)).trans
      (raftMaybeFinalizeJoint_grows _)
    split
    · rename_i shape
      rw [shape] at finalized
      exact finalized.trans (tickSend_grows ..)
    · rename_i shape
      rw [shape] at finalized
      exact finalized

theorem raftLeaderTick_grows (r : Node) (elapsedMs : Nat) : Grows r (raftLeaderTick r elapsedMs) := by
  have caught : Grows _ _ := tickCatchup_grows r elapsedMs
  unfold raftLeaderTick
  split
  · rename_i shape
    rw [shape] at caught
    exact caught
  · rename_i shape
    rw [shape] at caught
    split
    · exact caught.trans (abortJoint_grows _)
    · exact caught.trans (tickLead_grows _ _)

theorem raftAdvanceInner_grows (r : Node) (elapsedMs : Nat) :
    Grows r (raftAdvanceInner r elapsedMs) := by
  have stale : Grows _ _ := reapplyStale_grows r
  unfold raftAdvanceInner
  split
  · rename_i applied appliedShape
    rw [appliedShape] at stale
    have campaigned : Grows _ _ := stale.trans (campaign_grows applied)
    split
    · rename_i elected electedShape
      rw [electedShape] at campaigned
      have ticked : Grows elected (tickIfLeader elected elapsedMs) := by
        unfold tickIfLeader
        split
        · exact raftLeaderTick_grows elected elapsedMs
        · exact .refl elected
      exact (campaigned.trans ticked).trans
        ((raftEnqueueApply_grows _).trans (raftCheckBarriers_grows _))
    · rename_i refusedShape
      rw [refusedShape] at campaigned
      exact campaigned
  · rename_i shape
    rw [shape] at stale
    exact stale

theorem advanceReplies_grows (r : Node) (elapsedMs : Nat) : Grows r (advanceReplies r elapsedMs) := by
  have timed : Grows _ _ := (advanceTimers_grows r elapsedMs (r.state ≠ .leader)).trans
    ((expireFollowerRead_grows _ elapsedMs).trans (expireBarriers_grows _ elapsedMs))
  have transferred : Grows _ _ := timed.trans
    ((startFollowerRead_grows _).trans (advanceTransfer_grows _ elapsedMs))
  have votes : ∀ r, Grows r (releaseVote r) := by
    intro r
    unfold releaseVote
    split
    · exact .of_sent rfl rfl rfl
    · exact .refl r
  have appends : ∀ r, Grows r (releaseAppend r) := by
    intro r
    have reported : ∀ r, Grows r (reportAppend r) := by
      intro r
      unfold reportAppend
      split
      · exact .of_sent rfl rfl rfl
      · exact .refl r
    have settled : ∀ r, Grows r (settleAppend r) := by
      intro r
      unfold settleAppend
      split
      · exact .of_same rfl
      · exact .refl r
    unfold releaseAppend
    split
    · exact (reported r).trans (settled _)
    · exact .refl r
  have rejects : ∀ r, Grows r (releaseReject r) := by
    intro r
    unfold releaseReject
    split
    · exact .of_sent rfl rfl rfl
    · exact .refl r
  have requests : ∀ r, Grows r (releaseVoteRequest r) := by
    intro r
    unfold releaseVoteRequest
    split
    · exact .of_sent rfl rfl rfl
    · exact .refl r
  exact ((transferred.trans (votes _)).trans (appends _)).trans ((rejects _).trans (requests _))

theorem advanceOutput_grows (r : Node) (phaseStopped : Bool) :
    Grows r (advanceOutput r phaseStopped).1 := .of_same rfl

theorem advanceDrain_puts (r : Node) (elapsedMs : Nat) : Puts r (advanceDrain r elapsedMs).1 := by
  have drained : Grows _ _ := (advanceTimers_grows r elapsedMs true).trans
    ((raftEnqueueApply_grows _).trans (raftCheckBarriers_grows _))
  unfold advanceDrain
  dsimp only
  split
  · exact (drained.toPuts.trans (finishDrain_puts _)).trans (advanceOutput_grows ..).toPuts
  · exact (drained.trans (advanceOutput_grows ..)).toPuts

theorem raftAdvance_puts (r : Node) (elapsedMs : Nat) : Puts r (raftAdvance r elapsedMs).1 := by
  have entered : Grows r (enterPhase r) := enterPhase_grows r
  unfold raftAdvance
  dsimp only
  split
  · exact entered.toPuts.trans (advanceDrain_puts ..)
  · exact entered.toPuts
  · exact (((entered.trans (advanceReplies_grows _ elapsedMs)).trans
      (raftAdvanceInner_grows _ elapsedMs)).trans (advanceOutput_grows ..)).toPuts

/-! ## Peer messages -/

theorem adoptTerm_grows (r : Node) (term leaderId : Int) : Grows r (adoptTerm r term leaderId) := by
  unfold adoptTerm
  split
  · exact raftStepDown_grows _ _ _
  · exact .refl r

theorem raftRecvRequestVote_grows (r : Node) (sender : Int) (rpc : RequestVote) :
    Grows r (raftRecvRequestVote r sender rpc).1 := by
  unfold raftRecvRequestVote
  split
  · exact .refl r
  · split
    · exact .refl r
    · have adopted : Grows r (adoptTerm r rpc.term 0) := adoptTerm_grows r rpc.term 0
      dsimp only
      split
      · exact adopted
      · split
        · exact adopted
        · split
          · exact adopted
          · split
            · exact adopted.trans (.of_sent rfl rfl rfl)
            · exact adopted.trans (.of_same rfl)

theorem raftRecvRequestVoteResult_grows (r : Node) (sender : Int) (result : RequestVoteResult) :
    Grows r (raftRecvRequestVoteResult r sender result).1 := by
  have counted : ∀ r, Grows r (countPreVote r) := by
    intro r
    unfold countPreVote
    exact .ite ((raftBecomeCandidate_grows _).after rfl) (.refl r)
  have won : ∀ r, Grows r (countVote r) := fun r => .ite (raftBecomeLeader_grows r) (.refl r)
  unfold raftRecvRequestVoteResult
  split
  · exact .refl r
  · split
    · exact .refl r
    · split
      · exact raftStepDown_grows r result.term 0
      · split
        · exact .refl r
        · split
          · exact .refl r
          · split
            · split
              · exact (markVote_grows ..).trans (counted _)
              · exact .refl r
            · split
              · exact .refl r
              · exact (markVote_grows ..).trans (won _)

theorem replyAppend_grows (r : Node) (rpc : AppendEntries) : Grows r (replyAppend r rpc) := by
  unfold replyAppend
  exact .ite (.of_sent rfl rfl rfl) (.ite (.of_same rfl) (.refl r))

theorem replyFail_grows (r : Node) (rpc : AppendEntries) (hint : Int) :
    Grows r (replyFail r rpc hint) := by
  unfold replyFail
  dsimp only
  exact .ite (.of_same rfl) (.of_sent rfl rfl rfl)

theorem acceptAppend_grows (r : Node) (rpc : AppendEntries) : Grows r (acceptAppend r rpc).1 := by
  have applied : Grows _ _ := applyAppended_grows r rpc
  unfold acceptAppend
  split
  · rename_i shape
    rw [shape] at applied
    exact (applied.trans (followCommit_grows _ rpc)).trans ((replyAppend_grows _ rpc).after rfl)
  · rename_i shape
    rw [shape] at applied
    exact applied

theorem appendToLog_grows (r : Node) (rpc : AppendEntries) : Grows r (appendToLog r rpc).1 := by
  have cut : ∀ cutTo, Grows r (cutFor r cutTo) := by
    intro cutTo
    cases cutTo with
    | none => exact .refl r
    | some idx => exact raftLogCut_grows r idx
  unfold appendToLog
  split
  · exact replyFail_grows ..
  · split
    · exact .refl r
    · exact replyFail_grows ..
    · exact acceptAppend_grows r rpc
    · dsimp only
      split
      · exact (cut _).trans ((acceptAppend_grows _ rpc).after rfl)
      · exact (cut _).trans (.of_same rfl)

theorem raftRecvAppendEntries_grows (r : Node) (sender : Int) (rpc : AppendEntries) :
    Grows r (raftRecvAppendEntries r sender rpc).1 := by
  unfold raftRecvAppendEntries
  split
  · exact .refl r
  · have adopted : Grows r (adoptTerm r rpc.term rpc.leaderId) :=
      adoptTerm_grows r rpc.term rpc.leaderId
    dsimp only
    split
    · exact adopted
    · split
      · exact adopted
      · exact (adopted.trans (followLeader_grows _ _)).trans (appendToLog_grows _ _)

theorem recvReply_grows (r : Node) (sender term : Int) (handle : Peer → Node)
    (handled : ∀ peer, Grows r (handle peer)) : Grows r (recvReply r sender term handle).1 := by
  unfold recvReply
  split
  · exact .refl r
  · split
    · exact .refl r
    · split
      · exact .refl r
      · split
        · exact raftStepDown_grows _ _ _
        · split
          · exact .refl r
          · split
            · exact .refl r
            · exact handled _

theorem acked_grows (r : Node) (peers : List Peer) (isLearner : Bool) :
    Grows r (if isLearner then { r with peers } else raftAdvanceCommit { r with peers }) :=
  .ite (.of_same rfl) ((raftAdvanceCommit_grows _).after rfl)

theorem raftRecvInstallSnapshot_grows (r : Node) (sender : Int) (rpc : InstallSnapshot) :
    Grows r (raftRecvInstallSnapshot r sender rpc).1 := by
  unfold raftRecvInstallSnapshot
  split
  · exact .refl r
  · split
    · exact sendMessage_grows ..
    · have adopted : Grows r (adoptTerm r rpc.term rpc.leaderId) :=
        adoptTerm_grows r rpc.term rpc.leaderId
      dsimp only
      split
      · exact adopted
      · exact adopted.trans ((followLeader_grows _ _).trans
          ((followSnapshot_grows _ sender rpc).trans (recvSnapshotChunk_grows _ rpc)))

theorem raftRecvReadIndex_grows (r : Node) (sender : Int) (rpc : ReadIndexReq) :
    Grows r (raftRecvReadIndex r sender rpc).1 := by
  unfold raftRecvReadIndex
  split
  · exact .refl r
  · split
    · split
      · exact .refl r
      · exact raftStepDown_grows r rpc.term 0
    · split
      · exact .refl r
      · exact (joinRound_grows _ _).after rfl

theorem raftRecvReadIndexResult_grows (r : Node) (sender : Int) (result : ReadIndexResult) :
    Grows r (raftRecvReadIndexResult r sender result).1 := by
  unfold raftRecvReadIndexResult
  split
  · exact .refl r
  · split
    · exact raftStepDown_grows r result.term 0
    · split
      · exact .refl r
      · exact resolveFrozen_grows r _

theorem raftRecvTimeoutNow_grows (r : Node) (sender : Int) (rpc : TimeoutNow) :
    Grows r (raftRecvTimeoutNow r sender rpc).1 := by
  unfold raftRecvTimeoutNow
  split
  · exact .refl r
  · have adopted : Grows r (adoptTerm r rpc.term rpc.leaderId) :=
      adoptTerm_grows r rpc.term rpc.leaderId
    dsimp only
    split
    · exact adopted.trans (raftBecomeCandidate_grows _)
    · exact adopted

theorem raftRecvfromPeer_grows (r : Node) (msg : PeerMessage) :
    Grows r (raftRecvfromPeer r msg).1 := by
  obtain ⟨sender, target, rpc⟩ := msg
  unfold raftRecvfromPeer
  split
  · exact .refl r
  · cases rpc with
    | requestVote rpc => exact raftRecvRequestVote_grows r sender rpc
    | requestVoteResult result => exact raftRecvRequestVoteResult_grows r sender result
    | appendEntries rpc => exact raftRecvAppendEntries_grows r sender rpc
    | appendEntriesResult result =>
      exact recvReply_grows _ _ _ _ (fun peer => acked_grows r _ peer.isLearner)
    | installSnapshot rpc => exact raftRecvInstallSnapshot_grows r sender rpc
    | installSnapshotResult result =>
      exact recvReply_grows _ _ _ _ (fun peer => acked_grows r _ peer.isLearner)
    | readIndex rpc => exact raftRecvReadIndex_grows r sender rpc
    | readIndexResult result => exact raftRecvReadIndexResult_grows r sender result
    | timeoutNow rpc => exact raftRecvTimeoutNow_grows r sender rpc

/-! ## Client requests -/

theorem admitLearnerChange_grows (r : Node) : Grows r (admitLearnerChange r) := by
  have cleared : Grows _ _ := raftConfigZombieClear_grows r
  unfold admitLearnerChange
  dsimp only
  split
  · exact cleared.trans (raftConfigPendingClear_grows _)
  · exact cleared

theorem raftAddLearner_grows (r : Node) (cookie : Nat) (learnerId : Int) :
    Grows r (raftAddLearner r cookie learnerId).1 := by
  unfold raftAddLearner
  split
  · exact .refl r
  · split
    · exact raftConfigZombieClear_grows r
    · dsimp only
      have committed : ∀ learners, Grows r (raftCommitConfigEntry
          (setPending (admitLearnerChange r) (admitLearnerChange r).config.old learners) cookie).1 :=
        fun learners => ((admitLearnerChange_grows r).trans (setPending_grows _ _ learners)).trans
          (raftCommitConfigEntry_grows ..)
      split
      · rename_i shape
        have appended : Grows _ _ := committed (insertLearner (admitLearnerChange r).config.learners learnerId)
        rw [shape] at appended
        exact appended.trans (.of_same rfl)
      · exact committed _

theorem raftRemoveLearner_grows (r : Node) (cookie : Nat) (learnerId : Int) :
    Grows r (raftRemoveLearner r cookie learnerId).1 := by
  unfold raftRemoveLearner
  split
  · exact .refl r
  · split
    · exact raftConfigZombieClear_grows r
    · exact ((admitLearnerChange_grows r).trans (setPending_grows ..)).trans
        (raftCommitConfigEntry_grows ..)

theorem raftRecvfromClient_grows (r : Node) (msg : ClientMessage) :
    Grows r (raftRecvfromClient r msg).1 := by
  unfold raftRecvfromClient
  cases msg with
  | submit commands =>
    dsimp only
    unfold raftSubmit
    split
    · exact .refl r
    · split
      · exact .refl r
      · exact .of_same rfl
  | barrier cookie => exact raftBarrier_grows ..
  | reconfig cookie ids => exact raftReconfig_grows ..
  | addLearner cookie learnerId => exact raftAddLearner_grows ..
  | removeLearner cookie learnerId => exact raftRemoveLearner_grows ..
  | transfer cookie targetId => exact raftTransfer_grows ..

/-! ## Completions -/

theorem commitConfig_grows (r : Node) (idx : Int) (entry : Entry) :
    Grows r (commitConfig r idx entry).1 := by
  have retired : Grows _ _ := retirePending_grows r idx
  unfold commitConfig
  dsimp only
  split
  · split
    · exact retired.trans (raftFinalizeJoint_grows ..)
    · exact retired
  · exact retired.trans (raftApplyConfigFromLog_grows _)

theorem scanCommitted_grows (steps : Nat) (r : Node) (selfRemoved : Bool) (idx : Int) :
    Grows r (scanCommitted r selfRemoved steps idx).1 := by
  induction steps generalizing r selfRemoved idx with
  | zero => exact .refl r
  | succ steps ih =>
    unfold scanCommitted
    split
    · exact ih ..
    · rename_i entry _
      have committed : Grows _ _ := commitConfig_grows r idx entry
      split
      · rename_i shape
        rw [shape] at committed
        exact committed.trans (ih ..)
      · rename_i shape
        rw [shape] at committed
        exact committed

theorem installLog_grows (r : Node) : Grows r (installLog r) := by
  unfold installLog
  dsimp only
  split
  · exact .of_same rfl
  · exact .of_same rfl

theorem installState_grows (r : Node) : Grows r (installState r) := by
  have logged : Grows r (installLog (installConfig r)) :=
    (installConfig_grows r).trans (installLog_grows _)
  refine logged.trans (Grows.trans ?_ (Grows.trans (rebuildPeers_grows
    { installLog (installConfig r) with
      lastApplied := max r.lastApplied r.snapshotRecv.lastIndex
      applyOffered := max r.applyOffered (max r.lastApplied r.snapshotRecv.lastIndex)
      commitIndex := max r.commitIndex (installLog (installConfig r)).log.lastIncludedIndex }) ?_))
  · exact .of_same rfl
  · exact .of_same rfl

theorem installSnapshot_grows (r : Node) :
    Grows r (installSnapshot r).1 := by
  unfold installSnapshot
  split
  · exact .of_same rfl
  · have applied : Grows r (raftApplyConfigFromLog (installState r)).1 :=
      (installState_grows r).trans (raftApplyConfigFromLog_grows _)
    split
    · rename_i shape
      rw [shape] at applied
      have answered : ∀ r, Grows r (answerInstall r) := by
        intro r
        unfold answerInstall
        split
        · exact .of_sent rfl rfl rfl
        · exact .refl r
      exact (applied.trans (dropStalePending_grows _)).trans (answered _)
    · rename_i shape
      rw [shape] at applied
      exact applied

theorem raftApplyComplete_grows (r : Node) (appliedIndex : Int) :
    Grows r (raftApplyComplete r appliedIndex).1 := by
  have scanned : Grows r (applyScan r appliedIndex).1 :=
    (markApplied_grows r appliedIndex).trans (scanCommitted_grows ..)
  unfold raftApplyComplete
  split
  · exact .refl r
  · split
    · rename_i next selfRemoved shape
      rw [shape] at scanned
      have due : Grows (markScanned next) (installIfDue (markScanned next) appliedIndex).1 := by
        unfold installIfDue
        split
        · exact installSnapshot_grows _
        · exact .refl _
      have installed : Grows _ _ := scanned.trans (due.after rfl)
      split
      · rename_i done installShape
        rw [installShape] at installed
        refine (installed.trans (retireClients_grows _)).trans ?_
        unfold leaveIfRemoved
        split
        · exact raftStepDown_grows _ _ _
        · exact .refl _
      · rename_i installShape
        rw [installShape] at installed
        exact installed
    · rename_i shape
      rw [shape] at scanned
      exact scanned

theorem completeView_grows (r : Node) (view : Wal.Record.Persist) : Grows r (completeView r view) := by
  have reported : Grows r (raftPersistComplete r (viewDurable view)).1 := by
    unfold raftPersistComplete
    split
    · exact .refl r
    · exact (commitIfLeader_grows _).after rfl
  have completed : ∀ r, Grows r (raftSnapshotPersistComplete r (viewDurable view)).1 := by
    intro r
    unfold raftSnapshotPersistComplete
    split
    · exact .refl r
    · split
      · split
        · exact .refl r
        · exact .of_same rfl
      · exact .refl r
  unfold completeView
  dsimp only
  split
  · exact reported.trans (completed _)
  · exact reported

end Kynovo.Raft.OutputFrame
