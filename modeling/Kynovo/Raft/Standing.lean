import Kynovo.Raft.Refusal
import Kynovo.Raft.Run

/-! What holds of a node between its calls, as far as an election of a sole voter rests on
it: a configuration of one voter is not joint and names a valid id, only a leader waits for
the servers of a change, and no leader polls for a pre-vote. -/
namespace Kynovo.Raft.Standing
open Kynovo.Raft.Refusal

structure Stands (r : Node) : Prop where
  timed : 0 < r.cfg.electionMinMs
  joint : r.config.joint = true → ∀ id, ¬ (r.config.old = [id] ∧ r.config.new = [id])
  valid : ∀ id, r.config.old = [id] → raftIdValid id = true
  received : ∀ id, r.snapshotRecv.cfgOld = [id] → raftIdValid id = true
  polling : r.state = .leader → r.inPreVote = false
  catchup : r.catchup.active = true →
    r.state = .leader ∨ r.phase = .draining ∨ r.phase = .stopped

/-- What the invariant reads. -/
def standing (r : Node) : Settings × List Int × List Int × Bool × List Int × Bool × Role × Phase × Bool :=
  (r.cfg, r.config.old, r.config.new, r.config.joint, r.snapshotRecv.cfgOld, r.inPreVote, r.state,
    r.phase, r.catchup.active)

structure Keeps (r r' : Node) : Prop where
  stands : Stands r → Stands r'

variable {r r' : Node}

theorem Keeps.of_same (same : standing r' = standing r) : Keeps r r' := by
  simp only [standing, Prod.mk.injEq] at same
  obtain ⟨cfg, old, new, joint, recv, polled, state, phase, active⟩ := same
  constructor
  rintro ⟨timed, sound, valid, received, polling, catchup⟩
  constructor
  · rw [cfg]
    exact timed
  · rw [joint, old, new]
    exact sound
  · rw [old]
    exact valid
  · rw [recv]
    exact received
  · rw [state, polled]
    exact polling
  · rw [active, state, phase]
    exact catchup

/-- A change that ends a catch-up and nothing else the invariant reads. -/
theorem Keeps.of_idle (same : standing { r' with catchup := r.catchup } = standing r)
    (idle : r'.catchup.active = false) : Keeps r r' := by
  constructor
  intro stands
  obtain ⟨timed, sound, valid, received, polling, -⟩ := (Keeps.of_same same).stands stands
  refine ⟨timed, sound, valid, received, polling, fun active => ?_⟩
  rw [idle] at active
  cases active

theorem Keeps.refl (r : Node) : Keeps r r := ⟨id⟩

theorem Keeps.trans {a b c : Node} (first : Keeps a b) (second : Keeps b c) : Keeps a c :=
  ⟨fun stands => second.stands (first.stands stands)⟩

theorem Keeps.after {a b c : Node} (step : Keeps b c) (same : standing b = standing a) :
    Keeps a c := (Keeps.of_same same).trans step

theorem raftMakeSortedIds_valid {ids sorted : List Int} (made : raftMakeSortedIds ids = some sorted) :
    ∀ id ∈ sorted, raftIdValid id = true := by
  unfold raftMakeSortedIds at made
  dsimp only at made
  split at made
  · rename_i checked
    cases made
    simp only [Bool.and_eq_true, List.all_eq_true] at checked
    exact checked.1
  · cases made

theorem Keeps.foldl {α : Type} (change : Node → α → Node)
    (each : ∀ r item, Keeps r (change r item)) (items : List α) (r : Node) :
    Keeps r (items.foldl change r) := by
  induction items generalizing r with
  | nil => exact .refl r
  | cons item rest ih => exact (each r item).trans (ih (change r item))

theorem Keeps.ite {r a b : Node} {cond : Prop} [Decidable cond] (whenTrue : Keeps r a)
    (whenFalse : Keeps r b) : Keeps r (if cond then a else b) := by
  split
  · exact whenTrue
  · exact whenFalse

theorem sendMessage_keeps (r : Node) (target : Int) (rpc : Rpc) :
    Keeps r (sendMessage r target rpc) := .of_same rfl

theorem raftLogCut_keeps (r : Node) (idx : Int) : Keeps r (raftLogCut r idx) := by
  unfold raftLogCut
  split
  · exact .refl r
  · exact .of_same rfl

/-! ## Results and configuration -/

theorem raftResultEmit_keeps (r : Node) (cookie : Nat) (status : ClientStatus) :
    Keeps r (raftResultEmit r cookie status) := .of_same rfl

theorem emitResults_keeps (r : Node) (cookies : List Nat) (status : ClientStatus) :
    Keeps r (emitResults r cookies status) :=
  .foldl _ (fun r cookie => raftResultEmit_keeps r cookie status) cookies r

theorem raftConfigPendingOnlyClear_keeps (r : Node) : Keeps r (raftConfigPendingOnlyClear r) :=
  .of_same rfl

theorem raftConfigPendingClear_keeps (r : Node) : Keeps r (raftConfigPendingClear r) :=
  .of_idle rfl rfl

theorem raftConfigZombieClear_keeps (r : Node) : Keeps r (raftConfigZombieClear r) := by
  unfold raftConfigZombieClear
  exact .ite (raftConfigPendingOnlyClear_keeps r) (.refl r)

theorem raftFlushClientResults_keeps (r : Node) (status : ClientStatus) :
    Keeps r (raftFlushClientResults r status) := by
  unfold raftFlushClientResults
  extract_lets barriers clients reads
  have toBarriers : Keeps r barriers := emitResults_keeps ..
  have toClients : Keeps barriers clients := emitResults_keeps ..
  have toReads : Keeps clients reads := emitResults_keeps ..
  exact ((toBarriers.trans toClients).trans toReads).trans (.of_same rfl)

theorem rebuildPeers_keeps (r : Node) : Keeps r (rebuildPeers r) := by
  unfold rebuildPeers
  exact .ite (.of_same rfl) (.of_same rfl)

/-- Masks that name one voter name it alone, in both halves. -/
theorem assignMasks_keeps {r : Node} {config : Membership} {old new learners : List Int}
    (made : assignMasks r.config old new learners = some config) :
    Keeps r { r with config := config } := by
  unfold assignMasks at made
  simp only [Option.bind_eq_bind, Option.bind_eq_some_iff, Option.some.injEq] at made
  obtain ⟨sortedOld, fromOld, sortedNew, fromNew, rfl⟩ := made
  constructor
  rintro ⟨timed, -, -, received, polling, catchup⟩
  refine ⟨timed, ?_, ?_, received, polling, catchup⟩
  · intro split id
    rintro ⟨isOld, isNew⟩
    dsimp only at split isOld isNew
    rw [split, if_pos rfl, isOld] at fromOld
    rw [isNew] at fromNew
    have alone := List.singleton_perm.mp (raftMakeSortedIds_perm fromOld)
    have same := List.singleton_perm.mp (raftMakeSortedIds_perm fromNew)
    rw [← alone, ← same] at split
    simp at split
  · intro id isOld
    have named : sortedOld = [id] := isOld
    exact raftMakeSortedIds_valid fromOld id (named ▸ List.mem_singleton_self id)

theorem raftApplyConfigMasks_keeps (r : Node) (old new learners : List Int) :
    Keeps r (raftApplyConfigMasks r old new learners).1 := by
  unfold raftApplyConfigMasks
  split
  · exact .of_same rfl
  · split
    · exact .of_same rfl
    · rename_i config made
      exact (assignMasks_keeps made).trans (rebuildPeers_keeps _)

theorem raftApplyConfigFromLog_keeps (r : Node) : Keeps r (raftApplyConfigFromLog r).1 := by
  unfold raftApplyConfigFromLog
  split
  · exact raftApplyConfigMasks_keeps ..
  · obtain ⟨old, new, learners⟩ := baseMasks r
    dsimp only
    split
    · exact .refl r
    · exact raftApplyConfigMasks_keeps ..

theorem advanceCommitFrom_keeps (r : Node) (steps : Nat) (idx : Int) :
    Keeps r (advanceCommitFrom r steps idx) := by
  induction steps generalizing r idx with
  | zero => exact .refl r
  | succ steps ih =>
    unfold advanceCommitFrom
    split
    · exact ih r (idx + 1)
    · split
      · exact (Keeps.of_same rfl : Keeps r { r with
          commitIndex := idx
          leadershipConfirmed := true }).trans (ih _ _)
      · exact .refl r

theorem raftAdvanceCommit_keeps (r : Node) : Keeps r (raftAdvanceCommit r) :=
  advanceCommitFrom_keeps ..

/-! ## The leader's bookkeeping -/

theorem finishPromoted_keeps (r : Node) (id : Int) : Keeps r (finishPromoted r id) := by
  unfold finishPromoted
  split
  · exact .refl r
  · split
    · exact .refl r
    · split
      · exact .of_same rfl
      · exact .refl r

theorem raftDeferredCatchupAbort_keeps (r : Node) : Keeps r (raftDeferredCatchupAbort r) :=
  .of_idle rfl rfl

theorem setPending_keeps (r : Node) (new learners : List Int) : Keeps r (setPending r new learners) :=
  .of_same rfl

theorem admitChange_keeps (r : Node) : Keeps r (admitChange r) := by
  unfold admitChange
  exact (Keeps.ite (raftConfigPendingClear_keeps r) (.refl r)).trans (raftConfigZombieClear_keeps _)

theorem tickJointElapsed_keeps (r : Node) (elapsedMs : Nat) : Keeps r (tickJointElapsed r elapsedMs) := by
  unfold tickJointElapsed
  exact .ite (.of_same rfl) (.of_same rfl)

theorem tickContact_keeps (r : Node) : Keeps r (tickContact r) := by
  unfold tickContact
  exact .ite (.of_same rfl) (.refl r)

theorem tickReadRound_keeps (r : Node) : Keeps r (tickReadRound r) := by
  unfold tickReadRound
  exact .ite (.of_same rfl) (.refl r)

theorem raftQueueAppendEntries_keeps (r : Node) (position : Nat) :
    Keeps r (raftQueueAppendEntries r position) := by
  unfold raftQueueAppendEntries
  split
  · exact .refl r
  · split
    · exact .ite (.refl r) (.of_same rfl)
    · exact .of_same rfl

theorem tickHeartbeat_keeps (r : Node) : Keeps r (tickHeartbeat r) := by
  unfold tickHeartbeat
  split
  · have started : Keeps r (startHeartbeat r) := .of_same rfl
    exact (started.trans (.foldl _ raftQueueAppendEntries_keeps _ _)).trans (.of_same rfl)
  · exact .refl r

theorem tickReadIndex_keeps (r : Node) : Keeps r (tickReadIndex r) := by
  unfold tickReadIndex
  split
  · exact .of_same rfl
  · exact .refl r

theorem tickLearner_keeps (elapsedMs : Nat) (r : Node) (position : Nat) :
    Keeps r (tickLearner elapsedMs r position) := by
  unfold tickLearner
  split
  · exact .refl r
  · refine .ite (.refl r) (.ite (.of_same rfl) (.ite (.ite (.ite ?_ ?_) (.of_same rfl)) (.of_same rfl)))
    · exact .of_same rfl
    · exact .of_same rfl

theorem tickSend_keeps (r : Node) (elapsedMs : Nat) : Keeps r (tickSend r elapsedMs) :=
  ((tickHeartbeat_keeps r).trans (tickReadIndex_keeps _)).trans
    (.foldl _ (tickLearner_keeps elapsedMs) _ _)

/-! ## Applying, reading and timers -/

theorem enqueueApplyFrom_keeps (r : Node) (steps : Nat) : Keeps r (enqueueApplyFrom r steps) := by
  induction steps generalizing r with
  | zero => exact .refl r
  | succ steps ih =>
    unfold enqueueApplyFrom
    split
    · exact .refl r
    · exact (Keeps.of_same rfl : Keeps r (offerNext r)).trans (ih _)

theorem raftEnqueueApply_keeps (r : Node) : Keeps r (raftEnqueueApply r) := enqueueApplyFrom_keeps ..

theorem raftCheckBarriers_keeps (r : Node) : Keeps r (raftCheckBarriers r) :=
  (emitResults_keeps ..).trans (.of_same rfl)

theorem expireFollowerRead_keeps (r : Node) (elapsedMs : Nat) :
    Keeps r (expireFollowerRead r elapsedMs) := by
  unfold expireFollowerRead
  split
  · exact .refl r
  · dsimp only
    split
    · exact (emitResults_keeps ..).trans (.of_same rfl)
    · exact .of_same rfl

theorem expireBarriers_keeps (r : Node) (elapsedMs : Nat) : Keeps r (expireBarriers r elapsedMs) := by
  unfold expireBarriers
  split
  · split
    · exact (emitResults_keeps ..).trans (.of_same rfl)
    · exact .of_same rfl
  · exact .of_same rfl

theorem startFollowerRead_keeps (r : Node) : Keeps r (startFollowerRead r) := by
  unfold startFollowerRead
  split
  · exact .of_same rfl
  · exact .refl r

theorem endTransfer_keeps (r : Node) (status : ClientStatus) : Keeps r (endTransfer r status) :=
  (emitResults_keeps ..).trans (.of_same rfl)

theorem advanceTransfer_keeps (r : Node) (elapsedMs : Nat) : Keeps r (advanceTransfer r elapsedMs) := by
  unfold advanceTransfer
  split
  · exact .refl r
  · split
    · exact (sendMessage_keeps r _ _).trans (endTransfer_keeps ..)
    · dsimp only
      split
      · exact endTransfer_keeps ..
      · exact .of_same rfl

theorem advanceTimers_keeps (r : Node) (elapsedMs : Nat) (contact : Bool) :
    Keeps r (advanceTimers r elapsedMs contact) := .of_same rfl

theorem failCatchup_keeps (r : Node) : Keeps r (failCatchup r) := by
  unfold failCatchup
  exact .ite (.of_idle rfl rfl) (.refl r)

theorem finishDrain_keeps (r : Node) : Keeps r (finishDrain r) := by
  have flushed : Keeps _ _ := raftFlushClientResults_keeps r .failed
  have dropped : Keeps (raftFlushClientResults r .failed)
      (dropReadIndex (raftFlushClientResults r .failed)) := .of_same rfl
  have ended : Keeps _ _ := (failCatchup_keeps (dropReadIndex (raftFlushClientResults r .failed))).trans
    (endTransfer_keeps _ .failed)
  have stopped (a : Node) : Keeps a { a with phase := .stopped } := by
    constructor
    rintro ⟨timed, joint, valid, received, polling, -⟩
    exact ⟨timed, joint, valid, received, polling, fun _ => .inr (.inr rfl)⟩
  exact ((flushed.trans dropped).trans ended).trans (stopped _)

theorem enterPhase_keeps (r : Node) : Keeps r (enterPhase r) := by
  unfold enterPhase
  split
  · constructor
    rintro ⟨timed, joint, valid, received, -, -⟩
    exact ⟨timed, joint, valid, received, nofun, fun _ => .inr (.inl rfl)⟩
  · rename_i ready
    constructor
    rintro ⟨timed, joint, valid, received, polling, catchup⟩
    refine ⟨timed, joint, valid, received, polling, fun active => ?_⟩
    rcases catchup active with leads | draining | stopped
    · exact .inl leads
    · rw [ready] at draining
      cases draining
    · rw [ready] at stopped
      cases stopped
  · exact .refl r

theorem raftStop_keeps (r : Node) : Keeps r (raftStop r) := by
  have stopping (other : r.phase ≠ .draining) (still : r.phase ≠ .stopped) :
      Keeps r { r with phase := .stopping } := by
    constructor
    rintro ⟨timed, joint, valid, received, polling, catchup⟩
    refine ⟨timed, joint, valid, received, polling, fun active => ?_⟩
    rcases catchup active with leads | draining | stopped
    · exact .inl leads
    · exact absurd draining other
    · exact absurd stopped still
  unfold raftStop
  split
  · rename_i phase
    exact stopping (by simp [phase]) (by simp [phase])
  · rename_i phase
    exact stopping (by simp [phase]) (by simp [phase])
  · exact .refl r

theorem reapplyStale_keeps (r : Node) : Keeps r (reapplyStale r).1 := by
  unfold reapplyStale
  split
  · exact raftApplyConfigFromLog_keeps r
  · exact .refl r

/-! ## Receivers -/

theorem followLeader_keeps (r : Node) (leaderId : Int) (other : r.state ≠ .leader) :
    Keeps r (followLeader r leaderId) := by
  constructor
  rintro ⟨timed, joint, valid, received, -, catchup⟩
  refine ⟨timed, joint, valid, received, nofun, fun active => ?_⟩
  exact .inr ((catchup active).resolve_left other)

theorem followSnapshot_keeps (r : Node) (sender : Int) (rpc : InstallSnapshot) :
    Keeps r (followSnapshot r sender rpc) := .of_same rfl

theorem markVote_keeps (r : Node) (sender : Int) (granted preVote : Bool) :
    Keeps r (markVote r sender granted preVote) := by
  unfold markVote
  exact .ite (.of_same rfl) (.refl r)

theorem followCommit_keeps (r : Node) (rpc : AppendEntries) : Keeps r (followCommit r rpc) := by
  unfold followCommit
  exact .ite (.of_same rfl) (.refl r)

theorem applyAppended_keeps (r : Node) (rpc : AppendEntries) : Keeps r (applyAppended r rpc).1 := by
  unfold applyAppended
  split
  · exact raftApplyConfigFromLog_keeps r
  · exact .refl r

theorem startSnapshotRecv_keeps (r : Node) (rpc : InstallSnapshot) :
    Keeps r (startSnapshotRecv r rpc).1 := by
  constructor
  rintro ⟨timed, joint, valid, -, polling, catchup⟩
  have receives {masks : List Int} (r' : Node) (config : r'.config = r.config) (cfg : r'.cfg = r.cfg)
      (rest : (r'.state, r'.phase, r'.inPreVote, r'.catchup) =
        (r.state, r.phase, r.inPreVote, r.catchup))
      (recv : r'.snapshotRecv.cfgOld = masks) (named : ∀ id, masks = [id] → raftIdValid id = true) :
      Stands r' := by
    simp only [Prod.mk.injEq] at rest
    obtain ⟨state, phase, polled, caught⟩ := rest
    refine ⟨cfg ▸ timed, config ▸ joint, config ▸ valid, recv ▸ named, ?_, ?_⟩
    · rw [state, polled]
      exact polling
    · rw [caught, state, phase]
      exact catchup
  unfold startSnapshotRecv
  dsimp only
  split
  · exact receives _ rfl rfl rfl rfl nofun
  · rename_i old new shape
    have named : ∀ id, old = [id] → raftIdValid id = true := by
      intro id isOld
      split at shape
      · simp only [Option.some.injEq, Prod.mk.injEq] at shape
        rw [← shape.1] at isOld
        cases isOld
      · simp only [Option.bind_eq_bind, Option.bind_eq_some_iff, Option.some.injEq,
          Prod.mk.injEq] at shape
        obtain ⟨sorted, made, _, _, rfl, _⟩ := shape
        exact raftMakeSortedIds_valid made id (by rw [isOld]; exact List.mem_singleton_self id)
    split
    · exact receives _ rfl rfl rfl rfl named
    · exact receives _ rfl rfl rfl rfl named

theorem takeChunk_keeps (r : Node) (rpc : InstallSnapshot) : Keeps r (takeChunk r rpc).1 := by
  unfold takeChunk
  split
  · exact .refl r
  · split
    · exact .refl r
    · dsimp only
      split
      · exact .of_same rfl
      · exact .of_same rfl

theorem recvSnapshotChunk_keeps (r : Node) (rpc : InstallSnapshot) :
    Keeps r (recvSnapshotChunk r rpc).1 := by
  have started : Keeps _ _ := startSnapshotRecv_keeps r rpc
  unfold recvSnapshotChunk
  split
  · split
    · rename_i next shape
      rw [shape] at started
      exact started.trans (takeChunk_keeps ..)
    · rename_i next shape
      rw [shape] at started
      exact started
  · exact takeChunk_keeps ..

theorem joinRound_keeps (r : Node) (waiting : Nat) : Keeps r (joinRound r waiting) := by
  unfold joinRound
  dsimp only
  split
  · exact .of_same rfl
  · exact .of_same rfl

theorem resolveFrozen_keeps (r : Node) (readIndex : Int) : Keeps r (resolveFrozen r readIndex) :=
  .of_same rfl

/-! ## Clients and completions -/

theorem raftBarrier_keeps (r : Node) (cookie : Nat) : Keeps r (raftBarrier r cookie).1 := by
  unfold raftBarrier
  split
  · exact .refl r
  · split
    · split
      · exact .refl r
      · refine Keeps.trans ?_ (joinRound_keeps ..)
        exact .of_same rfl
    · split
      · exact .refl r
      · exact .of_same rfl
    · exact .refl r

theorem raftTransfer_keeps (r : Node) (cookie : Nat) (targetId : Int) :
    Keeps r (raftTransfer r cookie targetId).1 := by
  unfold raftTransfer
  split
  · exact .refl r
  · exact .of_same rfl

theorem raftSnapshotDataProvided_keeps (r : Node) (followerId byteOffset : Int) (size : Nat) :
    Keeps r (raftSnapshotDataProvided r followerId byteOffset size).1 := by
  unfold raftSnapshotDataProvided
  split
  · exact .refl r
  · split
    · exact .refl r
    · split
      · exact .refl r
      · exact .of_same rfl

theorem commitIfLeader_keeps (r : Node) : Keeps r (commitIfLeader r) := by
  unfold commitIfLeader
  exact .ite (raftAdvanceCommit_keeps r) (.refl r)

theorem retirePending_keeps (r : Node) (idx : Int) : Keeps r (retirePending r idx) := by
  unfold retirePending
  exact .ite (raftConfigPendingOnlyClear_keeps r) (.refl r)

theorem markApplied_keeps (r : Node) (appliedIndex : Int) : Keeps r (markApplied r appliedIndex) :=
  .of_same rfl

theorem installConfig_keeps (r : Node) : Keeps r (installConfig r) := by
  constructor
  rintro ⟨timed, -, -, received, polling, catchup⟩
  refine ⟨timed, ?_, received, received, polling, catchup⟩
  intro split id
  rintro ⟨isOld, isNew⟩
  have different : (installConfig r).config.old ≠ (installConfig r).config.new := by
    simpa [installConfig] using split
  exact different (isOld.trans isNew.symm)

theorem dropStalePending_keeps (r : Node) : Keeps r (dropStalePending r) := by
  unfold dropStalePending
  split
  · exact .of_same rfl
  · exact .refl r

theorem retireClients_keeps (r : Node) : Keeps r (retireClients r) :=
  (emitResults_keeps ..).trans (.of_same rfl)

/-! ## Configuration entries -/

theorem appendFinal_keeps (r : Node) (voters : List Int) : Keeps r (appendFinal r voters).1 := by
  have added : Keeps r (addFinal r voters) := .of_same rfl
  have applied : Keeps _ _ := added.trans (raftApplyConfigFromLog_keeps _)
  unfold appendFinal
  split
  · rename_i shape
    rw [shape] at applied
    exact applied.trans (.of_same rfl)
  · rename_i shape
    rw [shape] at applied
    exact (applied.trans (raftLogCut_keeps _ _)).trans (.of_same rfl)

theorem raftFinalizeJoint_keeps (r : Node) (jointIdx : Int) (cmNew : List Int) :
    Keeps r (raftFinalizeJoint r jointIdx cmNew).1 := by
  have final : Keeps r (appendFinal r cmNew).1 := appendFinal_keeps r cmNew
  unfold raftFinalizeJoint
  dsimp only
  split
  · refine Keeps.trans ?_ (raftApplyConfigFromLog_keeps _)
    exact .of_same rfl
  · split
    · rename_i shape
      rw [shape] at final
      exact final.trans (.of_same rfl)
    · exact final

theorem raftMaybeFinalizeJoint_keeps (r : Node) : Keeps r (raftMaybeFinalizeJoint r).1 := by
  unfold raftMaybeFinalizeJoint
  split
  · exact .refl r
  · split
    · exact .refl r
    · split
      · exact .refl r
      · split
        · exact .refl r
        · split
          · exact .refl r
          · exact raftFinalizeJoint_keeps ..

theorem settleJoint_keeps (r : Node) : Keeps r (settleJoint r) := by
  unfold settleJoint
  split
  · exact .refl r
  · dsimp only
    split
    · split
      · exact appendFinal_keeps ..
      · exact .refl r
    · split
      · exact appendFinal_keeps ..
      · split
        · exact .of_same rfl
        · exact .refl r

theorem raftBecomeLeader_keeps (r : Node) : Keeps r (raftBecomeLeader r) := by
  have fields : Keeps r (leaderFields r) := by
    constructor
    rintro ⟨timed, joint, valid, received, -, -⟩
    exact ⟨timed, joint, valid, received, fun _ => rfl, fun _ => .inl rfl⟩
  exact fields.trans (settleJoint_keeps _)

theorem raftCommitConfigEntry_keeps (r : Node) (cookie : Nat) :
    Keeps r (raftCommitConfigEntry r cookie).1 := by
  have added : Keeps r (addChange r) := .of_same rfl
  have applied : Keeps _ _ := (added.trans (.foldl _ finishPromoted_keeps r.config.pendingNew _)).trans
    (raftApplyConfigFromLog_keeps _)
  unfold raftCommitConfigEntry
  dsimp only
  split
  · rename_i shape
    rw [shape] at applied
    exact applied.trans (.of_same rfl)
  · rename_i shape
    rw [shape] at applied
    exact (applied.trans (raftLogCut_keeps _ _)).trans (raftConfigPendingOnlyClear_keeps _)

theorem raftMaybeAdvanceReconfig_keeps (r : Node) :
    Keeps r (raftMaybeAdvanceReconfig r).1 := by
  unfold raftMaybeAdvanceReconfig
  split
  · exact .refl r
  · split
    · rename_i new learners _ _
      have committed : Keeps r
          (raftCommitConfigEntry (setPending r new learners) r.catchup.cookie).1 :=
        Keeps.trans (setPending_keeps r new learners) (raftCommitConfigEntry_keeps ..)
      split
      · rename_i shape
        rw [shape] at committed
        exact committed.trans (.of_idle rfl rfl)
      · exact committed
    · exact .of_same rfl
    · exact .refl r

theorem admitChange_state (r : Node) : (admitChange r).state = r.state := by
  unfold admitChange raftConfigZombieClear
  dsimp only
  split
  · split
    · rfl
    · rfl
  · split
    · rfl
    · rfl

/-- Only a leader starts a catch-up. -/
theorem raftReconfig_keeps (r : Node) (cookie : Nat) (ids : List Int) :
    Keeps r (raftReconfig r cookie ids).1 := by
  have admitted : Keeps r (admitChange r) := admitChange_keeps r
  unfold raftReconfig
  split
  · exact .refl r
  · rename_i granted
    have leads : (admitChange r).state = .leader := by
      rw [admitChange_state]
      by_contra other
      exact granted (by simp [other])
    split
    · exact .refl r
    · split
      · exact raftResultEmit_keeps ..
      · dsimp only
        split
        · exact admitted
        · split
          · split
            · exact admitted.trans (raftConfigPendingClear_keeps _)
            · exact admitted.trans (Keeps.trans (setPending_keeps ..)
                (raftCommitConfigEntry_keeps ..))
          · refine admitted.trans ?_
            constructor
            rintro ⟨timed, joint, valid, received, polling, -⟩
            exact ⟨timed, joint, valid, received, polling, fun _ => .inl leads⟩

/-! ## The leader's tick -/

theorem catchupRound_keeps (r : Node) (elapsedMs : Nat) : Keeps r (catchupRound r elapsedMs).1 := by
  have advanced : Keeps r (raftMaybeAdvanceReconfig r).1 := raftMaybeAdvanceReconfig_keeps r
  unfold catchupRound
  split
  · exact .of_same rfl
  · split
    · split
      · split
        · split
          · rename_i shape
            rw [shape] at advanced
            exact advanced
          · rename_i shape
            rw [shape] at advanced
            exact advanced
        · exact raftDeferredCatchupAbort_keeps r
      · exact .of_same rfl
    · exact .of_same rfl

theorem tickCatchup_keeps (r : Node) (elapsedMs : Nat) : Keeps r (tickCatchup r elapsedMs).1 := by
  unfold tickCatchup
  split
  · exact .refl r
  · have round : Keeps r (catchupRound { r with
        catchup.totalElapsed := raftElapsedAdd r.catchup.totalElapsed elapsedMs } elapsedMs).1 := by
      refine Keeps.trans ?_ (catchupRound_keeps ..)
      exact .of_same rfl
    split
    · rename_i shape
      rw [shape] at round
      exact round
    · rename_i shape
      rw [shape] at round
      split
      · exact round.trans (raftDeferredCatchupAbort_keeps _)
      · exact round

/-! ## Elections -/

theorem raftStepDown_keeps (r : Node) (term newLeaderId : Int) :
    Keeps r (raftStepDown r term newLeaderId) := by
  unfold raftStepDown
  split
  · exact .refl r
  · dsimp only
    have fields : Keeps r (stepDownFields r term newLeaderId) := by
      constructor
      rintro ⟨timed, joint, valid, received, -, -⟩
      exact ⟨timed, joint, valid, received, nofun, nofun⟩
    have flushed : Keeps _ _ := fields.trans (raftFlushClientResults_keeps _ .redirect)
    have unread : ∀ node : Node, Keeps node { node with readBarrierGen := 0 } :=
      fun _ => .of_same rfl
    exact (flushed.trans (unread _)).trans (emitResults_keeps ..)

theorem raftBecomeCandidate_keeps (r : Node) (other : r.state ≠ .leader) :
    Keeps r (raftBecomeCandidate r).1 := by
  unfold raftBecomeCandidate
  split
  · exact .refl r
  · split
    · exact .refl r
    · dsimp only
      split
      · constructor
        rintro ⟨timed, joint, valid, received, -, -⟩
        exact ⟨timed, joint, valid, received, fun _ => rfl, fun _ => .inl rfl⟩
      · constructor
        rintro ⟨timed, joint, valid, received, -, catchup⟩
        refine ⟨timed, joint, valid, received, nofun, fun active => ?_⟩
        exact .inr ((catchup active).resolve_left other)

theorem preVoteFields_keeps (r : Node) (other : r.state ≠ .leader) :
    Keeps r (preVoteFields r) := by
  constructor
  rintro ⟨timed, joint, valid, received, -, catchup⟩
  exact ⟨timed, joint, valid, received, fun leads => absurd leads other, catchup⟩

theorem raftStartPreVote_keeps (r : Node) (other : r.state ≠ .leader) :
    Keeps r (raftStartPreVote r).1 := by
  have polled : Keeps r (preVoteFields r) := preVoteFields_keeps r other
  unfold raftStartPreVote
  dsimp only
  split
  · split
    · exact polled.trans (raftBecomeCandidate_keeps _ other)
    · exact polled
  · exact polled.trans (.of_same rfl)

theorem campaign_keeps (r : Node) : Keeps r (campaign r).1 := by
  unfold campaign
  split
  · rename_i expired
    have other : r.state ≠ .leader := by
      intro leads
      simp [leads] at expired
    exact raftStartPreVote_keeps r other
  · exact .refl r

theorem leaveTerm_keeps (r : Node) : Keeps r (leaveTerm r) := .of_idle rfl rfl

theorem abortJoint_keeps (r : Node) : Keeps r (abortJoint r) := by
  have failed : Keeps r (failAbandoned r) := (emitResults_keeps ..).trans (.of_same rfl)
  have cut : Keeps r (raftLogCut (failAbandoned r) (r.config.index - 1)) :=
    failed.trans (raftLogCut_keeps (failAbandoned r) (r.config.index - 1))
  have left : Keeps r (leaveTerm (raftLogCut (failAbandoned r) (r.config.index - 1))) :=
    cut.trans (leaveTerm_keeps (raftLogCut (failAbandoned r) (r.config.index - 1)))
  unfold abortJoint
  dsimp only
  exact (left.trans (raftStepDown_keeps _ _ _)).trans (raftApplyConfigFromLog_keeps _)

theorem tickLead_keeps (r : Node) (elapsedMs : Nat) : Keeps r (tickLead r elapsedMs) := by
  have quorum : Keeps r (tickReadRound (tickContact (tickJointElapsed r elapsedMs))) :=
    ((tickJointElapsed_keeps r elapsedMs).trans (tickContact_keeps _)).trans
      (tickReadRound_keeps _)
  unfold tickLead
  dsimp only
  split
  · exact quorum.trans (raftStepDown_keeps _ _ _)
  · have finalized : Keeps _ _ := (quorum.trans (raftAdvanceCommit_keeps _)).trans
      (raftMaybeFinalizeJoint_keeps _)
    split
    · rename_i shape
      rw [shape] at finalized
      exact finalized.trans (tickSend_keeps ..)
    · rename_i shape
      rw [shape] at finalized
      exact finalized

theorem raftLeaderTick_keeps (r : Node) (elapsedMs : Nat) : Keeps r (raftLeaderTick r elapsedMs) := by
  have caught : Keeps _ _ := tickCatchup_keeps r elapsedMs
  unfold raftLeaderTick
  split
  · rename_i shape
    rw [shape] at caught
    exact caught
  · rename_i shape
    rw [shape] at caught
    exact caught.trans (.ite (abortJoint_keeps _) (tickLead_keeps _ _))

theorem raftAdvanceInner_keeps (r : Node) (elapsedMs : Nat) : Keeps r (raftAdvanceInner r elapsedMs) := by
  have stale : Keeps _ _ := reapplyStale_keeps r
  unfold raftAdvanceInner
  split
  · rename_i applied appliedShape
    rw [appliedShape] at stale
    have campaigned : Keeps _ _ := stale.trans (campaign_keeps applied)
    split
    · rename_i elected electedShape
      rw [electedShape] at campaigned
      have ticked : Keeps elected (tickIfLeader elected elapsedMs) :=
        .ite (raftLeaderTick_keeps elected elapsedMs) (.refl elected)
      exact (campaigned.trans ticked).trans
        ((raftEnqueueApply_keeps _).trans (raftCheckBarriers_keeps _))
    · rename_i refusedShape
      rw [refusedShape] at campaigned
      exact campaigned
  · rename_i shape
    rw [shape] at stale
    exact stale

theorem advanceReplies_keeps (r : Node) (elapsedMs : Nat) : Keeps r (advanceReplies r elapsedMs) := by
  have timed : Keeps _ _ := (advanceTimers_keeps r elapsedMs (r.state ≠ .leader)).trans
    ((expireFollowerRead_keeps _ elapsedMs).trans (expireBarriers_keeps _ elapsedMs))
  have transferred : Keeps _ _ := timed.trans
    ((startFollowerRead_keeps _).trans (advanceTransfer_keeps _ elapsedMs))
  have votes : ∀ r, Keeps r (releaseVote r) := by
    intro r
    unfold releaseVote
    split
    · exact .of_same rfl
    · exact .refl r
  have appends : ∀ r, Keeps r (releaseAppend r) := by
    intro r
    unfold releaseAppend settleAppend reportAppend
    repeat' split
    all_goals exact .of_same rfl
  have rejects : ∀ r, Keeps r (releaseReject r) := by
    intro r
    unfold releaseReject
    split
    · exact .of_same rfl
    · exact .refl r
  have requests : ∀ r, Keeps r (releaseVoteRequest r) := by
    intro r
    unfold releaseVoteRequest
    split
    · exact .of_same rfl
    · exact .refl r
  exact ((transferred.trans (votes _)).trans (appends _)).trans ((rejects _).trans (requests _))

theorem advanceOutput_keeps (r : Node) (phaseStopped : Bool) :
    Keeps r (advanceOutput r phaseStopped).1 := .of_same rfl

theorem advanceDrain_keeps (r : Node) (elapsedMs : Nat) : Keeps r (advanceDrain r elapsedMs).1 := by
  have drained : Keeps _ _ := (advanceTimers_keeps r elapsedMs true).trans
    ((raftEnqueueApply_keeps _).trans (raftCheckBarriers_keeps _))
  unfold advanceDrain
  dsimp only
  split
  · exact (drained.trans (finishDrain_keeps _)).trans (advanceOutput_keeps ..)
  · exact drained.trans (advanceOutput_keeps ..)

theorem raftAdvance_keeps (r : Node) (elapsedMs : Nat) : Keeps r (raftAdvance r elapsedMs).1 := by
  have entered : Keeps r (enterPhase r) := enterPhase_keeps r
  unfold raftAdvance
  dsimp only
  split
  · exact entered.trans (advanceDrain_keeps ..)
  · exact entered
  · exact ((entered.trans (advanceReplies_keeps _ elapsedMs)).trans
      (raftAdvanceInner_keeps _ elapsedMs)).trans (advanceOutput_keeps ..)

/-! ## Peer messages -/

theorem adoptTerm_keeps (r : Node) (term leaderId : Int) : Keeps r (adoptTerm r term leaderId) :=
  .ite (raftStepDown_keeps _ _ _) (.refl r)

theorem raftRecvRequestVote_keeps (r : Node) (sender : Int) (rpc : RequestVote) :
    Keeps r (raftRecvRequestVote r sender rpc).1 := by
  have adopted : Keeps r (adoptTerm r rpc.term 0) := adoptTerm_keeps r rpc.term 0
  unfold raftRecvRequestVote
  split
  · exact .refl r
  · split
    · exact .refl r
    · dsimp only
      split
      · exact adopted
      · split
        · exact adopted
        · split
          · exact adopted
          · split
            · exact adopted.trans (.of_same rfl)
            · exact adopted.trans (.of_same rfl)

/-- A pre-vote round of a leader would make it a candidate; a leader polls for none. -/
theorem countPreVote_keeps (r : Node) (polling : r.inPreVote = true) : Keeps r (countPreVote r) := by
  unfold countPreVote
  split
  · constructor
    intro stands
    have other : r.state ≠ .leader := by
      intro leads
      rw [stands.polling leads] at polling
      cases polling
    have cleared : Keeps r { r with inPreVote := false } := by
      constructor
      rintro ⟨timed, joint, valid, received, -, catchup⟩
      exact ⟨timed, joint, valid, received, fun _ => rfl, catchup⟩
    exact (cleared.trans (raftBecomeCandidate_keeps _ other)).stands stands
  · exact .refl r

theorem raftRecvRequestVoteResult_keeps (r : Node) (sender : Int) (result : RequestVoteResult) :
    Keeps r (raftRecvRequestVoteResult r sender result).1 := by
  have won : ∀ r, Keeps r (countVote r) := fun r => .ite (raftBecomeLeader_keeps r) (.refl r)
  unfold raftRecvRequestVoteResult
  split
  · exact .refl r
  · split
    · exact .refl r
    · split
      · exact raftStepDown_keeps r result.term 0
      · split
        · exact .refl r
        · split
          · exact .refl r
          · split
            · split
              · rename_i polling
                have same : (markVote r sender result.voteGranted true).inPreVote = true := by
                  unfold markVote
                  split
                  · exact polling
                  · exact polling
                exact (markVote_keeps ..).trans (countPreVote_keeps _ same)
              · exact .refl r
            · split
              · exact .refl r
              · exact (markVote_keeps ..).trans (won _)

theorem replyAppend_keeps (r : Node) (rpc : AppendEntries) : Keeps r (replyAppend r rpc) := by
  unfold replyAppend
  exact .ite (.of_same rfl) (.ite (.of_same rfl) (.refl r))

theorem replyFail_keeps (r : Node) (rpc : AppendEntries) (hint : Int) :
    Keeps r (replyFail r rpc hint) := by
  unfold replyFail
  dsimp only
  exact .ite (.of_same rfl) (.of_same rfl)

theorem acceptAppend_keeps (r : Node) (rpc : AppendEntries) : Keeps r (acceptAppend r rpc).1 := by
  have applied : Keeps _ _ := applyAppended_keeps r rpc
  unfold acceptAppend
  split
  · rename_i shape
    rw [shape] at applied
    exact (applied.trans (followCommit_keeps _ rpc)).trans ((replyAppend_keeps _ rpc).after rfl)
  · rename_i shape
    rw [shape] at applied
    exact applied

theorem appendToLog_keeps (r : Node) (rpc : AppendEntries) : Keeps r (appendToLog r rpc).1 := by
  have cut : ∀ cutTo, Keeps r (cutFor r cutTo) := by
    intro cutTo
    cases cutTo with
    | none => exact .refl r
    | some idx => exact raftLogCut_keeps r idx
  unfold appendToLog
  split
  · exact replyFail_keeps ..
  · split
    · exact .refl r
    · exact replyFail_keeps ..
    · exact acceptAppend_keeps r rpc
    · dsimp only
      split
      · exact (cut _).trans ((acceptAppend_keeps _ rpc).after rfl)
      · exact (cut _).trans (.of_same rfl)

theorem raftRecvAppendEntries_keeps (r : Node) (sender : Int) (rpc : AppendEntries) :
    Keeps r (raftRecvAppendEntries r sender rpc).1 := by
  have adopted : Keeps r (adoptTerm r rpc.term rpc.leaderId) :=
    adoptTerm_keeps r rpc.term rpc.leaderId
  unfold raftRecvAppendEntries
  split
  · exact .refl r
  · dsimp only
    split
    · exact adopted
    · split
      · exact adopted
      · rename_i other
        exact (adopted.trans (followLeader_keeps _ _ other)).trans (appendToLog_keeps _ _)

theorem recvReply_keeps (r : Node) (sender term : Int) (handle : Peer → Node)
    (handled : ∀ peer, Keeps r (handle peer)) : Keeps r (recvReply r sender term handle).1 := by
  unfold recvReply
  split
  · exact .refl r
  · split
    · exact .refl r
    · split
      · exact .refl r
      · split
        · exact raftStepDown_keeps _ _ _
        · split
          · exact .refl r
          · split
            · exact .refl r
            · exact handled _

theorem acked_keeps (r : Node) (peers : List Peer) (isLearner : Bool) :
    Keeps r (if isLearner then { r with peers } else raftAdvanceCommit { r with peers }) :=
  .ite (.of_same rfl) ((raftAdvanceCommit_keeps _).after rfl)

theorem raftRecvInstallSnapshot_keeps (r : Node) (sender : Int) (rpc : InstallSnapshot) :
    Keeps r (raftRecvInstallSnapshot r sender rpc).1 := by
  have adopted : Keeps r (adoptTerm r rpc.term rpc.leaderId) :=
    adoptTerm_keeps r rpc.term rpc.leaderId
  unfold raftRecvInstallSnapshot
  split
  · exact .refl r
  · split
    · exact .of_same rfl
    · dsimp only
      split
      · exact adopted
      · rename_i other
        exact adopted.trans ((followLeader_keeps _ _ other).trans
          ((followSnapshot_keeps _ sender rpc).trans (recvSnapshotChunk_keeps _ rpc)))

theorem raftRecvReadIndex_keeps (r : Node) (sender : Int) (rpc : ReadIndexReq) :
    Keeps r (raftRecvReadIndex r sender rpc).1 := by
  unfold raftRecvReadIndex
  split
  · exact .refl r
  · split
    · split
      · exact .refl r
      · exact raftStepDown_keeps r rpc.term 0
    · split
      · exact .refl r
      · exact (joinRound_keeps _ _).after rfl

theorem raftRecvReadIndexResult_keeps (r : Node) (sender : Int) (result : ReadIndexResult) :
    Keeps r (raftRecvReadIndexResult r sender result).1 := by
  unfold raftRecvReadIndexResult
  split
  · exact .refl r
  · split
    · exact raftStepDown_keeps r result.term 0
    · split
      · exact .refl r
      · exact resolveFrozen_keeps r _

theorem raftRecvTimeoutNow_keeps (r : Node) (sender : Int) (rpc : TimeoutNow) :
    Keeps r (raftRecvTimeoutNow r sender rpc).1 := by
  have adopted : Keeps r (adoptTerm r rpc.term rpc.leaderId) :=
    adoptTerm_keeps r rpc.term rpc.leaderId
  unfold raftRecvTimeoutNow
  split
  · exact .refl r
  · dsimp only
    split
    · rename_i follows
      have other : (adoptTerm r rpc.term rpc.leaderId).state ≠ .leader := by
        intro leads
        simp [leads] at follows
      exact adopted.trans (raftBecomeCandidate_keeps _ other)
    · exact adopted

theorem raftRecvfromPeer_keeps (r : Node) (msg : PeerMessage) : Keeps r (raftRecvfromPeer r msg).1 := by
  obtain ⟨sender, target, rpc⟩ := msg
  unfold raftRecvfromPeer
  split
  · exact .refl r
  · cases rpc with
    | requestVote rpc => exact raftRecvRequestVote_keeps r sender rpc
    | requestVoteResult result => exact raftRecvRequestVoteResult_keeps r sender result
    | appendEntries rpc => exact raftRecvAppendEntries_keeps r sender rpc
    | appendEntriesResult result =>
      exact recvReply_keeps _ _ _ _ (fun peer => acked_keeps r _ peer.isLearner)
    | installSnapshot rpc => exact raftRecvInstallSnapshot_keeps r sender rpc
    | installSnapshotResult result =>
      exact recvReply_keeps _ _ _ _ (fun peer => acked_keeps r _ peer.isLearner)
    | readIndex rpc => exact raftRecvReadIndex_keeps r sender rpc
    | readIndexResult result => exact raftRecvReadIndexResult_keeps r sender result
    | timeoutNow rpc => exact raftRecvTimeoutNow_keeps r sender rpc

/-! ## Client requests -/

theorem admitLearnerChange_keeps (r : Node) : Keeps r (admitLearnerChange r) := by
  have cleared : Keeps _ _ := raftConfigZombieClear_keeps r
  unfold admitLearnerChange
  dsimp only
  split
  · exact cleared.trans (raftConfigPendingClear_keeps _)
  · exact cleared

theorem raftAddLearner_keeps (r : Node) (cookie : Nat) (learnerId : Int) :
    Keeps r (raftAddLearner r cookie learnerId).1 := by
  unfold raftAddLearner
  split
  · exact .refl r
  · split
    · exact raftConfigZombieClear_keeps r
    · dsimp only
      have committed : ∀ learners, Keeps r (raftCommitConfigEntry
          (setPending (admitLearnerChange r) (admitLearnerChange r).config.old learners) cookie).1 :=
        fun learners => ((admitLearnerChange_keeps r).trans (setPending_keeps _ _ learners)).trans
          (raftCommitConfigEntry_keeps ..)
      split
      · rename_i shape
        have appended : Keeps _ _ := committed (insertLearner (admitLearnerChange r).config.learners learnerId)
        rw [shape] at appended
        exact appended.trans (.of_same rfl)
      · exact committed _

theorem raftRemoveLearner_keeps (r : Node) (cookie : Nat) (learnerId : Int) :
    Keeps r (raftRemoveLearner r cookie learnerId).1 := by
  unfold raftRemoveLearner
  split
  · exact .refl r
  · split
    · exact raftConfigZombieClear_keeps r
    · exact ((admitLearnerChange_keeps r).trans (setPending_keeps ..)).trans
        (raftCommitConfigEntry_keeps ..)

theorem raftRecvfromClient_keeps (r : Node) (msg : ClientMessage) :
    Keeps r (raftRecvfromClient r msg).1 := by
  unfold raftRecvfromClient
  cases msg with
  | submit commands =>
    dsimp only
    unfold raftSubmit
    split
    · exact .refl r
    · split
      · exact .refl r
      · exact .of_same rfl
  | barrier cookie => exact raftBarrier_keeps ..
  | reconfig cookie ids => exact raftReconfig_keeps ..
  | addLearner cookie learnerId => exact raftAddLearner_keeps ..
  | removeLearner cookie learnerId => exact raftRemoveLearner_keeps ..
  | transfer cookie targetId => exact raftTransfer_keeps ..

/-! ## Completions -/

theorem commitConfig_keeps (r : Node) (idx : Int) (entry : Entry) :
    Keeps r (commitConfig r idx entry).1 := by
  have retired : Keeps _ _ := retirePending_keeps r idx
  unfold commitConfig
  dsimp only
  split
  · split
    · exact retired.trans (raftFinalizeJoint_keeps ..)
    · exact retired
  · exact retired.trans (raftApplyConfigFromLog_keeps _)

theorem scanCommitted_keeps (steps : Nat) (r : Node) (selfRemoved : Bool) (idx : Int) :
    Keeps r (scanCommitted r selfRemoved steps idx).1 := by
  induction steps generalizing r selfRemoved idx with
  | zero => exact .refl r
  | succ steps ih =>
    unfold scanCommitted
    split
    · exact ih ..
    · rename_i entry _
      have committed : Keeps _ _ := commitConfig_keeps r idx entry
      split
      · rename_i shape
        rw [shape] at committed
        exact committed.trans (ih ..)
      · rename_i shape
        rw [shape] at committed
        exact committed

theorem installLog_keeps (r : Node) : Keeps r (installLog r) := by
  unfold installLog
  dsimp only
  split
  · exact .of_same rfl
  · exact .of_same rfl

theorem installState_keeps (r : Node) : Keeps r (installState r) := by
  have logged : Keeps r (installLog (installConfig r)) :=
    (installConfig_keeps r).trans (installLog_keeps _)
  have emptied (a : Node) (snapshot : SnapshotMeta) : Keeps a { a with
      snapshot := snapshot
      snapshotRecv := .zero
      snapshotInstallPending := false } := by
    constructor
    rintro ⟨timed, joint, valid, -, polling, catchup⟩
    exact ⟨timed, joint, valid, nofun, polling, catchup⟩
  refine logged.trans (Keeps.trans ?_ (Keeps.trans (rebuildPeers_keeps
    { installLog (installConfig r) with
      lastApplied := max r.lastApplied r.snapshotRecv.lastIndex
      applyOffered := max r.applyOffered (max r.lastApplied r.snapshotRecv.lastIndex)
      commitIndex := max r.commitIndex (installLog (installConfig r)).log.lastIncludedIndex })
    (emptied _ r.snapshotRecv)))
  exact .of_same rfl

theorem installSnapshot_keeps (r : Node) : Keeps r (installSnapshot r).1 := by
  unfold installSnapshot
  split
  · exact .of_same rfl
  · have applied : Keeps r (raftApplyConfigFromLog (installState r)).1 :=
      (installState_keeps r).trans (raftApplyConfigFromLog_keeps _)
    split
    · rename_i shape
      rw [shape] at applied
      have answered : ∀ r, Keeps r (answerInstall r) := fun r => .ite (.of_same rfl) (.refl r)
      exact (applied.trans (dropStalePending_keeps _)).trans (answered _)
    · rename_i shape
      rw [shape] at applied
      exact applied

theorem raftApplyComplete_keeps (r : Node) (appliedIndex : Int) :
    Keeps r (raftApplyComplete r appliedIndex).1 := by
  have scanned : Keeps r (applyScan r appliedIndex).1 :=
    (markApplied_keeps r appliedIndex).trans (scanCommitted_keeps ..)
  unfold raftApplyComplete
  split
  · exact .refl r
  · split
    · rename_i next selfRemoved shape
      rw [shape] at scanned
      have due : Keeps (markScanned next) (installIfDue (markScanned next) appliedIndex).1 := by
        unfold installIfDue
        split
        · exact installSnapshot_keeps _
        · exact .refl _
      have installed : Keeps _ _ := scanned.trans (due.after rfl)
      split
      · rename_i done installShape
        rw [installShape] at installed
        exact (installed.trans (retireClients_keeps _)).trans
          (.ite (raftStepDown_keeps _ _ _) (.refl _))
      · rename_i installShape
        rw [installShape] at installed
        exact installed
    · rename_i shape
      rw [shape] at scanned
      exact scanned

theorem completeView_keeps (r : Node) (view : Wal.Record.Persist) : Keeps r (completeView r view) := by
  have reported : Keeps r (raftPersistComplete r (viewDurable view)).1 := by
    unfold raftPersistComplete
    split
    · exact .refl r
    · exact (commitIfLeader_keeps _).after rfl
  have completed : ∀ r, Keeps r (raftSnapshotPersistComplete r (viewDurable view)).1 := by
    intro r
    unfold raftSnapshotPersistComplete
    split
    · exact .refl r
    · split
      · split
        · exact .refl r
        · exact .of_same rfl
      · exact .refl r
  unfold completeView
  dsimp only
  split
  · exact reported.trans (completed _)
  · exact reported

end Kynovo.Raft.Standing
