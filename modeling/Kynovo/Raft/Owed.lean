import Kynovo.Raft.Frontier

/-! What enters the log is owed to the disk. A call that appends leaves a persist
due, and a persist that is due stays due until a view is handed out; a call that
leaves none due has at most removed entries. The one exception is a message
that is refused after part of its entries went into the log. -/
namespace Kynovo.Raft.Owed
open Kynovo.Raft.Frame
open Kynovo.Raft.NodeEdits
open Kynovo.Raft.Frontier

/-- Every entry of the second log is in the first, at the same index. -/
def Kept (log log' : Log) : Prop :=
  ∀ idx entry, log'.entryAt idx = some entry → log.entryAt idx = some entry

structure Owes (r r' : Node) : Prop where
  stays : r.persistNeeded = true → r'.persistNeeded = true
  grown : r'.persistNeeded = true ∨ Kept r.log r'.log

variable {r r' : Node}

theorem Kept.refl (log : Log) : Kept log log := fun _ _ held => held

theorem Owes.of_log (log : r'.log = r.log) (needed : r'.persistNeeded = r.persistNeeded) : Owes r r' :=
  ⟨fun due => needed.trans due, .inr (log ▸ .refl r.log)⟩

theorem Owes.refl (r : Node) : Owes r r := .of_log rfl rfl

/-- A persist is due afterwards. -/
theorem Owes.of_due (due : r'.persistNeeded = true) : Owes r r' := ⟨fun _ => due, .inl due⟩

theorem Owes.of_calm (calm : Calm r r') : Owes r r' :=
  ⟨calm.needed, .inr (calm.log ▸ .refl r.log)⟩

theorem Owes.trans {a b c : Node} (first : Owes a b) (second : Owes b c) : Owes a c := by
  refine ⟨fun due => second.stays (first.stays due), ?_⟩
  rcases second.grown with due | kept
  · exact .inl due
  · rcases first.grown with due | before
    · exact .inl (second.stays due)
    · exact .inr fun idx entry held => before idx entry (kept idx entry held)

theorem truncate_kept {log cut : Log} {bound : Int} (truncated : raftLogTruncate log bound = some cut) :
    Kept log cut := by
  intro idx entry held
  obtain ⟨above, -⟩ := entryAt_bounds held
  rw [truncate_base truncated] at above
  unfold raftLogTruncate at truncated
  split at truncated
  · cases truncated
  · cases truncated
    simp only [Log.entryAt, not_le.mpr above, if_false, Log.offset] at held ⊢
    rw [List.getElem?_take] at held
    split at held
    · exact held
    · cases held

theorem compact_kept {log compacted : Log} {bound term : Int}
    (compact : raftLogCompactPrefix log bound term = some compacted) : Kept log compacted := by
  intro idx entry held
  obtain ⟨above, -⟩ := entryAt_bounds held
  obtain ⟨-, base⟩ := compact_base compact
  rw [← entryAt_compact compact (by omega)]
  exact held

theorem empty_kept (log : Log) (idx term : Int) (chunkSize : Nat) : Kept log ⟨[], idx, term, chunkSize⟩ := by
  intro i entry held
  have bounds := entryAt_bounds held
  simp only [raftLogLastIndex, List.length_nil] at bounds
  omega

theorem raftLogCut_owes (r : Node) (idx : Int) : Owes r (raftLogCut r idx) := by
  unfold raftLogCut
  split
  · exact .refl r
  · rename_i log truncated
    exact ⟨id, .inr (truncate_kept truncated)⟩

/-- What was just appended is cut back. -/
theorem undo_owes {appended : Node} {entry : Entry} (r : Node)
    (log : appended.log = raftLogAppend r.log entry)
    (stays : r.persistNeeded = true → appended.persistNeeded = true) :
    Owes r (raftLogCut appended (raftLogLastIndex r.log)) := by
  have whole : raftLogTruncate appended.log (raftLogLastIndex r.log) = some r.log := by
    rw [log]
    simp [raftLogTruncate, raftLogAppend, raftLogLastIndex]
  unfold raftLogCut
  rw [whole]
  exact ⟨stays, .inr (.refl r.log)⟩

/-! ## Elections -/

theorem raftStepDown_owes (r : Node) (term newLeaderId : Int) :
    Owes r (raftStepDown r term newLeaderId) := by
  unfold raftStepDown
  split
  · exact .refl r
  · have flushed := raftFlushClientResults_calm (stepDownFields r term newLeaderId) .redirect
    exact .of_due ((emitResults_calm ..).needed (flushed.needed rfl))

theorem raftBecomeCandidate_owes (r : Node) : Owes r (raftBecomeCandidate r).1 := by
  unfold raftBecomeCandidate
  split
  · exact .refl r
  · split
    · exact .refl r
    · dsimp only
      split
      · exact .of_due rfl
      · exact .of_due rfl

theorem raftStartPreVote_owes (r : Node) : Owes r (raftStartPreVote r).1 := by
  have fields : Owes r (preVoteFields r) := .of_log rfl rfl
  unfold raftStartPreVote
  dsimp only
  split
  · split
    · exact fields.trans (raftBecomeCandidate_owes _)
    · exact fields
  · exact fields.trans (.of_log rfl rfl)

/-! ## Configuration entries -/

theorem appendFinal_owes (r : Node) (voters : List Int) : Owes r (appendFinal r voters).1 := by
  have calm := raftApplyConfigFromLog_calm (addFinal r voters)
  unfold appendFinal
  split
  · exact .of_due rfl
  · rename_i refused rc _ shape
    rw [shape] at calm
    have undone := undo_owes r calm.log calm.needed
    exact undone.trans (.of_log rfl rfl)

theorem raftFinalizeJoint_owes (r : Node) (jointIdx : Int) (cmNew : List Int) :
    Owes r (raftFinalizeJoint r jointIdx cmNew).1 := by
  have final := appendFinal_owes r cmNew
  unfold raftFinalizeJoint
  dsimp only
  split
  · refine Owes.trans ?_ (.of_calm (raftApplyConfigFromLog_calm _))
    exact .of_log rfl rfl
  · split
    · rename_i shape
      rw [shape] at final
      exact final.trans (.of_log rfl rfl)
    · exact final

theorem raftMaybeFinalizeJoint_owes (r : Node) : Owes r (raftMaybeFinalizeJoint r).1 := by
  unfold raftMaybeFinalizeJoint
  split
  · exact .refl r
  · split
    · exact .refl r
    · split
      · exact .refl r
      · split
        · exact .refl r
        · split
          · exact .refl r
          · exact raftFinalizeJoint_owes ..

theorem settleJoint_owes (r : Node) : Owes r (settleJoint r) := by
  unfold settleJoint
  split
  · exact .refl r
  · dsimp only
    split
    · split
      · exact appendFinal_owes ..
      · exact .refl r
    · split
      · exact appendFinal_owes ..
      · split
        · exact .of_log rfl rfl
        · exact .refl r

theorem raftBecomeLeader_owes (r : Node) : Owes r (raftBecomeLeader r) := by
  have fields : Owes r (leaderFields r) := .of_due rfl
  exact fields.trans (settleJoint_owes _)

theorem raftCommitConfigEntry_owes (r : Node) (cookie : Nat) :
    Owes r (raftCommitConfigEntry r cookie).1 := by
  have calm := (Calm.foldl _ finishPromoted_calm r.config.pendingNew (addChange r)).trans
    (raftApplyConfigFromLog_calm _)
  unfold raftCommitConfigEntry
  dsimp only
  split
  · exact .of_due rfl
  · rename_i refused rc _ shape
    rw [shape] at calm
    have undone := undo_owes r calm.log calm.needed
    exact undone.trans (.of_calm (raftConfigPendingOnlyClear_calm _))

theorem raftMaybeAdvanceReconfig_owes (r : Node) : Owes r (raftMaybeAdvanceReconfig r).1 := by
  unfold raftMaybeAdvanceReconfig
  split
  · exact .refl r
  · split
    · rename_i new learners _ _
      have committed : Owes r (raftCommitConfigEntry (setPending r new learners) r.catchup.cookie).1 :=
        (Owes.of_calm (setPending_calm r new learners)).trans (raftCommitConfigEntry_owes ..)
      split
      · rename_i shape
        rw [shape] at committed
        exact committed.trans (.of_log rfl rfl)
      · exact committed
    · exact .of_log rfl rfl
    · exact .refl r

theorem raftReconfig_owes (r : Node) (cookie : Nat) (ids : List Int) :
    Owes r (raftReconfig r cookie ids).1 := by
  have admitted : Owes r (admitChange r) := .of_calm (admitChange_calm r)
  unfold raftReconfig
  split
  · exact .refl r
  · split
    · exact .refl r
    · split
      · exact .of_calm (raftResultEmit_calm ..)
      · dsimp only
        split
        · exact admitted
        · split
          · split
            · exact admitted.trans (.of_calm (raftConfigPendingClear_calm _))
            · exact admitted.trans (Owes.trans (.of_calm (setPending_calm ..))
                (raftCommitConfigEntry_owes ..))
          · exact admitted.trans (.of_log rfl rfl)

/-! ## The leader's tick -/

theorem catchupRound_owes (r : Node) (elapsedMs : Nat) : Owes r (catchupRound r elapsedMs).1 := by
  have advanced := raftMaybeAdvanceReconfig_owes r
  unfold catchupRound
  split
  · exact .of_log rfl rfl
  · split
    · split
      · split
        · split
          · rename_i shape
            rw [shape] at advanced
            exact advanced
          · rename_i shape
            rw [shape] at advanced
            exact advanced
        · exact .of_calm (raftDeferredCatchupAbort_calm r)
      · exact .of_log rfl rfl
    · exact .of_log rfl rfl

theorem tickCatchup_owes (r : Node) (elapsedMs : Nat) : Owes r (tickCatchup r elapsedMs).1 := by
  unfold tickCatchup
  split
  · exact .refl r
  · have round : Owes r (catchupRound { r with
        catchup.totalElapsed := raftElapsedAdd r.catchup.totalElapsed elapsedMs } elapsedMs).1 := by
      refine Owes.trans ?_ (catchupRound_owes ..)
      exact .of_log rfl rfl
    split
    · rename_i shape
      rw [shape] at round
      exact round
    · rename_i shape
      rw [shape] at round
      split
      · exact round.trans (.of_calm (raftDeferredCatchupAbort_calm _))
      · exact round

theorem abortJoint_owes (r : Node) : Owes r (abortJoint r) := by
  have left : Owes r (leaveTerm (raftLogCut (failAbandoned r) (r.config.index - 1))) := .of_due rfl
  exact (left.trans (raftStepDown_owes ..)).trans (.of_calm (raftApplyConfigFromLog_calm _))

theorem tickLead_owes (r : Node) (elapsedMs : Nat) : Owes r (tickLead r elapsedMs) := by
  have quorum : Owes r (tickReadRound (tickContact (tickJointElapsed r elapsedMs))) :=
    .of_calm ((tickJointElapsed_calm r elapsedMs).trans
      ((tickContact_calm _).trans (tickReadRound_calm _)))
  unfold tickLead
  dsimp only
  split
  · exact quorum.trans (raftStepDown_owes ..)
  · have committed := quorum.trans (.of_calm (raftAdvanceCommit_calm _))
    have finalized := committed.trans (raftMaybeFinalizeJoint_owes _)
    split
    · rename_i shape
      rw [shape] at finalized
      exact finalized.trans (.of_calm (tickSend_calm ..))
    · rename_i shape
      rw [shape] at finalized
      exact finalized

theorem raftLeaderTick_owes (r : Node) (elapsedMs : Nat) : Owes r (raftLeaderTick r elapsedMs) := by
  have caught := tickCatchup_owes r elapsedMs
  unfold raftLeaderTick
  split
  · rename_i shape
    rw [shape] at caught
    exact caught
  · rename_i shape
    rw [shape] at caught
    split
    · exact caught.trans (abortJoint_owes _)
    · exact caught.trans (tickLead_owes ..)

/-! ## raft_advance -/

theorem campaign_owes (r : Node) : Owes r (campaign r).1 := by
  unfold campaign
  split
  · exact raftStartPreVote_owes r
  · exact .refl r

theorem raftAdvanceInner_owes (r : Node) (elapsedMs : Nat) : Owes r (raftAdvanceInner r elapsedMs) := by
  have stale : Owes r (reapplyStale r).1 := .of_calm (reapplyStale_calm r)
  unfold raftAdvanceInner
  split
  · rename_i applied appliedShape
    rw [appliedShape] at stale
    have campaigned := stale.trans (campaign_owes applied)
    split
    · rename_i elected electedShape
      rw [electedShape] at campaigned
      have ticked : Owes elected (tickIfLeader elected elapsedMs) := by
        unfold tickIfLeader
        split
        · exact raftLeaderTick_owes elected elapsedMs
        · exact .refl elected
      exact (campaigned.trans ticked).trans
        (.of_calm ((raftEnqueueApply_calm _).trans (raftCheckBarriers_calm _)))
    · rename_i refusedShape
      rw [refusedShape] at campaigned
      exact campaigned
  · rename_i refusedShape
    rw [refusedShape] at stale
    exact stale

theorem releaseAppend_owes (r : Node) : Owes r (releaseAppend r) := by
  unfold releaseAppend
  split
  · have reported : Owes r (reportAppend r) := by
      unfold reportAppend
      split
      · exact .of_log rfl rfl
      · exact .refl r
    refine reported.trans ?_
    unfold settleAppend
    split
    · exact .of_log rfl rfl
    · exact .refl _
  · exact .refl r

theorem advanceReplies_owes (r : Node) (elapsedMs : Nat) : Owes r (advanceReplies r elapsedMs) := by
  have timed := (advanceTimers_calm r elapsedMs (r.state ≠ .leader)).trans
    ((expireFollowerRead_calm _ elapsedMs).trans (expireBarriers_calm _ elapsedMs))
  have transferred := timed.trans
    ((startFollowerRead_calm _).trans (advanceTransfer_calm _ elapsedMs))
  have vote : ∀ r, Owes r (releaseVote r) := by
    intro r
    unfold releaseVote
    split
    · exact .of_log rfl rfl
    · exact .refl r
  have reject : ∀ r, Owes r (releaseReject r) := by
    intro r
    unfold releaseReject
    split
    · exact .of_log rfl rfl
    · exact .refl r
  have request : ∀ r, Owes r (releaseVoteRequest r) := by
    intro r
    unfold releaseVoteRequest
    split
    · exact .of_log rfl rfl
    · exact .refl r
  exact (((Owes.of_calm transferred).trans (vote _)).trans (releaseAppend_owes _)).trans
    ((reject _).trans (request _))

/-- A round that hands out no view has appended nothing and found nothing due,
unless the node has stopped. -/
theorem raftAdvance_owes {elapsedMs : Nat} (unhanded : (raftAdvance r elapsedMs).2.persist = none) :
    (raftAdvance r elapsedMs).2 = stoppedReady ∧ Calm r (raftAdvance r elapsedMs).1 ∨
      (r.persistNeeded = false ∧ Kept r.log (raftAdvance r elapsedMs).1.log) := by
  have output : ∀ (node : Node) (stopped : Bool), Owes r node →
      (advanceOutput node stopped).2.persist = none →
      r.persistNeeded = false ∧ Kept r.log (advanceOutput node stopped).1.log := by
    intro node stopped owes none
    have due : node.persistNeeded = false := by
      by_contra set
      simp [advanceOutput, Bool.not_eq_false _ ▸ set] at none
    refine ⟨?_, (owes.grown.resolve_left (by simp [due]))⟩
    by_contra set
    have stays := owes.stays (by simpa using set)
    rw [due] at stays
    cases stays
  have entered : Owes r (enterPhase r) := .of_calm (enterPhase_calm r)
  revert unhanded
  unfold raftAdvance
  dsimp only
  split
  · have drained := (advanceTimers_calm (enterPhase r) elapsedMs true).trans
      ((raftEnqueueApply_calm _).trans (raftCheckBarriers_calm _))
    unfold advanceDrain
    dsimp only
    split
    · exact fun none => .inr (output _ _
        (entered.trans (.of_calm (drained.trans (finishDrain_calm _)))) none)
    · exact fun none => .inr (output _ _ (entered.trans (.of_calm drained)) none)
  · exact fun _ => .inl ⟨rfl, enterPhase_calm r⟩
  · exact fun none => .inr (output _ _
      ((entered.trans (advanceReplies_owes ..)).trans (raftAdvanceInner_owes ..)) none)

/-! ## Receivers -/

theorem adoptTerm_owes (r : Node) (term leaderId : Int) : Owes r (adoptTerm r term leaderId) := by
  unfold adoptTerm
  split
  · exact raftStepDown_owes ..
  · exact .refl r

theorem raftRecvRequestVote_owes (r : Node) (sender : Int) (rpc : RequestVote) :
    Owes r (raftRecvRequestVote r sender rpc).1 := by
  have adopted := adoptTerm_owes r rpc.term 0
  unfold raftRecvRequestVote
  split
  · exact .refl r
  · split
    · exact .refl r
    · dsimp only
      split
      · exact adopted
      · split
        · exact adopted
        · split
          · exact adopted
          · split
            · exact adopted.trans (.of_log rfl rfl)
            · exact .of_due rfl

theorem raftRecvRequestVoteResult_owes (r : Node) (sender : Int) (result : RequestVoteResult) :
    Owes r (raftRecvRequestVoteResult r sender result).1 := by
  have marked : ∀ preVote, Owes r (markVote r sender result.voteGranted preVote) :=
    fun preVote => .of_calm (markVote_calm ..)
  have counted : ∀ r, Owes r (countPreVote r) := by
    intro r
    unfold countPreVote
    split
    · refine Owes.trans ?_ (raftBecomeCandidate_owes _)
      exact .of_log rfl rfl
    · exact .refl r
  have elected : ∀ r, Owes r (countVote r) := by
    intro r
    unfold countVote
    split
    · exact raftBecomeLeader_owes r
    · exact .refl r
  unfold raftRecvRequestVoteResult
  split
  · exact .refl r
  · split
    · exact .refl r
    · split
      · exact raftStepDown_owes ..
      · split
        · exact .refl r
        · split
          · exact .refl r
          · split
            · split
              · exact (marked true).trans (counted _)
              · exact .refl r
            · split
              · exact .refl r
              · exact (marked false).trans (elected _)

theorem replyAppend_owes (r : Node) (rpc : AppendEntries) : Owes r (replyAppend r rpc) := by
  unfold replyAppend
  split
  · exact .of_log rfl rfl
  · split
    · exact .of_log rfl rfl
    · exact .refl r

theorem replyFail_owes (r : Node) (rpc : AppendEntries) (hint : Int) : Owes r (replyFail r rpc hint) := by
  unfold replyFail
  dsimp only
  split
  · exact .of_log rfl rfl
  · exact .of_log rfl rfl

theorem acceptAppend_owes (r : Node) (rpc : AppendEntries) : Owes r (acceptAppend r rpc).1 := by
  have applied : Owes r (applyAppended r rpc).1 := .of_calm (applyAppended_calm r rpc)
  unfold acceptAppend
  split
  · rename_i shape
    rw [shape] at applied
    refine (applied.trans (.of_calm (followCommit_calm _ rpc))).trans
      (Owes.trans ?_ (replyAppend_owes ..))
    exact ⟨fun due => by simp [due], .inr (.refl _)⟩
  · rename_i shape
    rw [shape] at applied
    exact applied

/-- A message that is accepted and brings entries leaves a persist due. -/
theorem acceptAppend_due {r : Node} {rpc : AppendEntries} (brings : rpc.entries ≠ [])
    (accepted : (acceptAppend r rpc).2 = 0) : (acceptAppend r rpc).1.persistNeeded = true := by
  revert accepted
  unfold acceptAppend
  split
  · have some : (!rpc.entries.isEmpty) = true := by simpa using brings
    exact fun _ => (replyAppend_owes _ rpc).stays (by simp [some])
  · rintro ⟨⟩

/-- The entries of a message that is refused halfway stay in the log and are not
owed. -/
theorem appendToLog_owes (r : Node) (rpc : AppendEntries) :
    (r.persistNeeded = true → (appendToLog r rpc).1.persistNeeded = true) ∧
      ((appendToLog r rpc).2 = 0 → Owes r (appendToLog r rpc).1) := by
  have whole : ∀ {r' : Node} {rc : Int}, Owes r r' →
      (r.persistNeeded = true → r'.persistNeeded = true) ∧ (rc = 0 → Owes r r') :=
    fun owes => ⟨owes.stays, fun _ => owes⟩
  unfold appendToLog
  split
  · exact whole (replyFail_owes ..)
  · split
    · exact whole (.refl r)
    · exact whole (replyFail_owes ..)
    · exact whole (acceptAppend_owes ..)
    · rename_i cutTo new shape
      have cut : Owes r (cutFor r cutTo) := by
        cases cutTo with
        | none => exact .refl r
        | some idx => exact raftLogCut_owes r idx
      have brings : rpc.entries ≠ [] := by
        intro none
        simp [none, scanEntries] at shape
      dsimp only
      split
      · have accepted := acceptAppend_owes { cutFor r cutTo with
          log := appendNew (cutFor r cutTo).log new } rpc
        exact ⟨fun due => accepted.stays (cut.stays due),
          fun rc => .of_due (acceptAppend_due brings rc)⟩
      · exact ⟨cut.stays, fun refused => nomatch refused⟩

theorem raftRecvAppendEntries_owes (r : Node) (sender : Int) (rpc : AppendEntries) :
    (r.persistNeeded = true → (raftRecvAppendEntries r sender rpc).1.persistNeeded = true) ∧
      ((raftRecvAppendEntries r sender rpc).2 = 0 → Owes r (raftRecvAppendEntries r sender rpc).1) := by
  have adopted := adoptTerm_owes r rpc.term rpc.leaderId
  unfold raftRecvAppendEntries
  split
  · exact ⟨id, fun _ => .refl r⟩
  · dsimp only
    split
    · exact ⟨adopted.stays, fun _ => adopted⟩
    · split
      · exact ⟨adopted.stays, fun _ => adopted⟩
      · have followed := adopted.trans
          (.of_calm (followLeader_calm (adoptTerm r rpc.term rpc.leaderId) rpc.leaderId))
        obtain ⟨stays, accepted⟩ := appendToLog_owes
          (followLeader (adoptTerm r rpc.term rpc.leaderId) rpc.leaderId) rpc
        exact ⟨fun due => stays (followed.stays due), fun rc => followed.trans (accepted rc)⟩

theorem recvReply_owes (r : Node) (sender term : Int) (handle : Peer → Node)
    (handled : ∀ peer, Owes r (handle peer)) : Owes r (recvReply r sender term handle).1 := by
  unfold recvReply
  split
  · exact .refl r
  · split
    · exact .refl r
    · split
      · exact .refl r
      · split
        · exact raftStepDown_owes ..
        · split
          · exact .refl r
          · split
            · exact .refl r
            · exact handled _

theorem acked_owes (r : Node) (peers : List Peer) (isLearner : Bool) :
    Owes r (if isLearner then { r with peers } else raftAdvanceCommit { r with peers }) := by
  have acked : Owes r { r with peers } := .of_log rfl rfl
  split
  · exact acked
  · exact acked.trans (.of_calm (raftAdvanceCommit_calm _))

theorem raftRecvInstallSnapshot_owes (r : Node) (sender : Int) (rpc : InstallSnapshot) :
    Owes r (raftRecvInstallSnapshot r sender rpc).1 := by
  have adopted := adoptTerm_owes r rpc.term rpc.leaderId
  unfold raftRecvInstallSnapshot
  split
  · exact .refl r
  · split
    · exact .of_log rfl rfl
    · dsimp only
      split
      · exact adopted
      · exact adopted.trans (.of_calm ((followLeader_calm ..).trans
          ((followSnapshot_calm ..).trans (recvSnapshotChunk_calm ..))))

theorem raftRecvReadIndex_owes (r : Node) (sender : Int) (rpc : ReadIndexReq) :
    Owes r (raftRecvReadIndex r sender rpc).1 := by
  unfold raftRecvReadIndex
  split
  · exact .refl r
  · split
    · split
      · exact .refl r
      · exact raftStepDown_owes ..
    · split
      · exact .refl r
      · refine Owes.trans ?_ (.of_calm (joinRound_calm ..))
        exact .of_log rfl rfl

theorem raftRecvReadIndexResult_owes (r : Node) (sender : Int) (result : ReadIndexResult) :
    Owes r (raftRecvReadIndexResult r sender result).1 := by
  unfold raftRecvReadIndexResult
  split
  · exact .refl r
  · split
    · exact raftStepDown_owes ..
    · split
      · exact .refl r
      · exact .of_calm (resolveFrozen_calm ..)

theorem raftRecvTimeoutNow_owes (r : Node) (sender : Int) (rpc : TimeoutNow) :
    Owes r (raftRecvTimeoutNow r sender rpc).1 := by
  have adopted := adoptTerm_owes r rpc.term rpc.leaderId
  unfold raftRecvTimeoutNow
  split
  · exact .refl r
  · dsimp only
    split
    · exact adopted.trans (raftBecomeCandidate_owes _)
    · exact adopted

/-- Every message but AppendEntries is taken whole or not at all. -/
theorem raftRecvfromPeer_other {msg : PeerMessage} (other : ∀ rpc, msg.rpc ≠ .appendEntries rpc) :
    Owes r (raftRecvfromPeer r msg).1 := by
  unfold raftRecvfromPeer
  split
  · exact .refl r
  · split
    · exact raftRecvRequestVote_owes ..
    · exact raftRecvRequestVoteResult_owes ..
    · rename_i rpc shape
      exact absurd shape (other rpc)
    · exact recvReply_owes r _ _ _ (fun peer => acked_owes r _ peer.isLearner)
    · exact raftRecvInstallSnapshot_owes ..
    · exact recvReply_owes r _ _ _ (fun peer => acked_owes r _ peer.isLearner)
    · exact raftRecvReadIndex_owes ..
    · exact raftRecvReadIndexResult_owes ..
    · exact raftRecvTimeoutNow_owes ..

/-- A refused message leaves a persist due that was due, too. -/
theorem raftRecvfromPeer_stays (r : Node) (msg : PeerMessage) (due : r.persistNeeded = true) :
    (raftRecvfromPeer r msg).1.persistNeeded = true := by
  by_cases other : ∀ rpc, msg.rpc ≠ .appendEntries rpc
  · exact (raftRecvfromPeer_other other).stays due
  · obtain ⟨rpc, shape⟩ := not_forall_not.mp other
    unfold raftRecvfromPeer
    rw [shape]
    split
    · exact due
    · exact (raftRecvAppendEntries_owes r msg.sender rpc).1 due

/-- A message that is not refused, or leaves the log alone. -/
def takenWhole (r : Node) (msg : PeerMessage) : Prop :=
  (raftRecvfromPeer r msg).2 = 0 ∨ (raftRecvfromPeer r msg).1.log = r.log

theorem raftRecvfromPeer_owes {msg : PeerMessage} (taken : takenWhole r msg) :
    Owes r (raftRecvfromPeer r msg).1 := by
  by_cases other : ∀ rpc, msg.rpc ≠ .appendEntries rpc
  · exact raftRecvfromPeer_other other
  · rcases taken with rc | log
    · obtain ⟨rpc, shape⟩ := not_forall_not.mp other
      revert rc
      unfold raftRecvfromPeer
      rw [shape]
      split
      · exact fun _ => .refl r
      · exact (raftRecvAppendEntries_owes r msg.sender rpc).2
    · exact ⟨raftRecvfromPeer_stays r msg, .inr (log ▸ .refl r.log)⟩

/-! ## Clients -/

theorem raftSubmit_owes (r : Node) (commands : List Command) : Owes r (raftSubmit r commands).1 := by
  unfold raftSubmit
  split
  · exact .refl r
  · split
    · exact .refl r
    · exact .of_due rfl

theorem raftAddLearner_owes (r : Node) (cookie : Nat) (learnerId : Int) :
    Owes r (raftAddLearner r cookie learnerId).1 := by
  unfold raftAddLearner
  split
  · exact .refl r
  · split
    · exact .of_calm (raftConfigZombieClear_calm r)
    · dsimp only
      have committed : ∀ learners, Owes r (raftCommitConfigEntry
          (setPending (admitLearnerChange r) (admitLearnerChange r).config.old learners) cookie).1 :=
        fun learners => Owes.trans
          (.of_calm ((admitLearnerChange_calm r).trans (setPending_calm _ _ learners)))
          (raftCommitConfigEntry_owes ..)
      split
      · rename_i next shape
        have appended := committed (insertLearner (admitLearnerChange r).config.learners learnerId)
        rw [shape] at appended
        exact appended.trans (.of_log rfl rfl)
      · exact committed _

theorem raftRemoveLearner_owes (r : Node) (cookie : Nat) (learnerId : Int) :
    Owes r (raftRemoveLearner r cookie learnerId).1 := by
  unfold raftRemoveLearner
  split
  · exact .refl r
  · split
    · exact .of_calm (raftConfigZombieClear_calm r)
    · exact Owes.trans (.of_calm ((admitLearnerChange_calm r).trans (setPending_calm ..)))
        (raftCommitConfigEntry_owes ..)

theorem raftRecvfromClient_owes (r : Node) (msg : ClientMessage) :
    Owes r (raftRecvfromClient r msg).1 := by
  unfold raftRecvfromClient
  cases msg with
  | submit commands => exact raftSubmit_owes ..
  | barrier cookie => exact .of_calm (raftBarrier_calm ..)
  | reconfig cookie ids => exact raftReconfig_owes ..
  | addLearner cookie learnerId => exact raftAddLearner_owes ..
  | removeLearner cookie learnerId => exact raftRemoveLearner_owes ..
  | transfer cookie targetId => exact .of_calm (raftTransfer_calm ..)

/-! ## Completions -/

theorem commitConfig_owes (r : Node) (idx : Int) (entry : Entry) : Owes r (commitConfig r idx entry).1 := by
  have retired : Owes r (retirePending r idx) := .of_calm (retirePending_calm r idx)
  unfold commitConfig
  dsimp only
  split
  · split
    · exact retired.trans (raftFinalizeJoint_owes ..)
    · exact retired
  · exact retired.trans (.of_calm (raftApplyConfigFromLog_calm _))

theorem scanCommitted_owes (steps : Nat) (r : Node) (selfRemoved : Bool) (idx : Int) :
    Owes r (scanCommitted r selfRemoved steps idx).1 := by
  induction steps generalizing r selfRemoved idx with
  | zero => exact .refl r
  | succ steps ih =>
    unfold scanCommitted
    split
    · exact ih ..
    · rename_i entry _
      have committed := commitConfig_owes r idx entry
      split
      · rename_i shape
        rw [shape] at committed
        exact committed.trans (ih ..)
      · rename_i shape
        rw [shape] at committed
        exact committed

theorem installLog_owes (r : Node) : Owes r (installLog r) := by
  unfold installLog
  dsimp only
  split
  · rename_i log kept
    refine ⟨id, .inr ?_⟩
    split at kept
    · exact compact_kept kept
    · cases kept
  · exact ⟨id, .inr (empty_kept _ _ _ _)⟩

theorem installSnapshot_owes (r : Node) : Owes r (installSnapshot r).1 := by
  unfold installSnapshot
  split
  · exact .of_log rfl rfl
  · have logged : Owes r (installLog (installConfig r)) :=
      (Owes.of_calm (installConfig_calm r)).trans (installLog_owes _)
    have state : Owes (installLog (installConfig r)) (installState r) := by
      refine Owes.trans ?_ (Owes.trans (.of_calm (rebuildPeers_calm { installLog (installConfig r) with
        lastApplied := max r.lastApplied r.snapshotRecv.lastIndex
        applyOffered := max r.applyOffered (max r.lastApplied r.snapshotRecv.lastIndex)
        commitIndex := max r.commitIndex (installLog (installConfig r)).log.lastIncludedIndex })) ?_)
      · exact .of_log rfl rfl
      · exact .of_log rfl rfl
    have installed := (logged.trans state).trans (.of_calm (raftApplyConfigFromLog_calm _))
    split
    · rename_i applied shape
      rw [shape] at installed
      refine (installed.trans (.of_calm (dropStalePending_calm applied))).trans ?_
      unfold answerInstall
      split
      · exact .of_log rfl rfl
      · exact .refl _
    · rename_i shape
      rw [shape] at installed
      exact installed

theorem raftApplyComplete_owes (r : Node) (appliedIndex : Int) :
    Owes r (raftApplyComplete r appliedIndex).1 := by
  have scanned : Owes r (applyScan r appliedIndex).1 :=
    Owes.trans (.of_calm (markApplied_calm r appliedIndex)) (scanCommitted_owes ..)
  unfold raftApplyComplete
  split
  · exact .refl r
  · split
    · rename_i next selfRemoved shape
      rw [shape] at scanned
      have marked : Owes r (markScanned next) := scanned.trans (.of_log rfl rfl)
      have installed : Owes r (installIfDue (markScanned next) appliedIndex).1 := by
        refine marked.trans ?_
        unfold installIfDue
        split
        · exact installSnapshot_owes _
        · exact .refl _
      split
      · rename_i final installShape
        rw [installShape] at installed
        refine (installed.trans (.of_calm (retireClients_calm _))).trans ?_
        unfold leaveIfRemoved
        split
        · exact raftStepDown_owes ..
        · exact .refl _
      · rename_i installShape
        rw [installShape] at installed
        exact installed
    · rename_i shape
      rw [shape] at scanned
      exact scanned

theorem completeView_owes (r : Node) (view : Wal.Record.Persist) : Owes r (completeView r view) := by
  have reported : Owes r (raftPersistComplete r (viewDurable view)).1 := by
    unfold raftPersistComplete
    split
    · exact .refl r
    · refine Owes.trans ?_ (.of_calm (commitIfLeader_calm _))
      exact .of_log rfl rfl
  unfold completeView
  dsimp only
  split
  · refine reported.trans ?_
    unfold raftSnapshotPersistComplete
    split
    · exact .refl _
    · split
      · split
        · exact .refl _
        · rename_i log compacted
          exact ⟨id, .inr (compact_kept compacted)⟩
      · exact .refl _
  · exact reported

/-- A call on which nothing is handed out. -/
theorem call_owes (r : Node) (op : Op) (taken : ∀ msg, op = .recvPeer msg → takenWhole r msg) :
    Owes r (call r op) := by
  cases op with
  | recvPeer msg => exact raftRecvfromPeer_owes (taken msg rfl)
  | recvClient msg => exact raftRecvfromClient_owes r msg
  | applyComplete appliedIndex => exact raftApplyComplete_owes r appliedIndex
  | snapshot => exact .of_calm (raftSnapshot_calm r)
  | snapshotDataReady totalSize => exact .of_calm (raftSnapshotDataReady_calm ..)
  | snapshotDataProvided followerId byteOffset size =>
    exact .of_calm (raftSnapshotDataProvided_calm ..)
  | stop => exact .of_calm (raftStop_calm r)
  | advance elapsedMs => exact .refl r
  | complete => exact .refl r

end Kynovo.Raft.Owed
