import Kynovo.Raft.Leader

/-! Creation of a node and `raft_advance`, the only call that moves time and
hands out work. Replies whose term or vote is not durable yet are latched by
the receivers and released here, by generation; the persist view is built last.
-/
namespace Kynovo.Raft
open Kynovo.Wal.Record

/-! ## Applying and reading -/

def raftPendingCookie (r : Node) (idx : Int) : Nat :=
  ((r.clientPending.find? (fun item => item.logIndex == idx)).map ClientPending.cookie).getD 0

def applyEntry (r : Node) (idx : Int) : ApplyEntry :=
  let entry := (r.log.entryAt idx).getD ⟨0, entryCommand, [], [], [], []⟩
  let masked := (r.log.configAt idx).isSome
  { index := idx
    term := raftLogTermAt r.log idx
    kind := entry.kind
    command := entry.data
    cookie := raftPendingCookie r idx
    cfgOld := if masked then entry.cfgOld else []
    cfgNew := if masked then entry.cfgNew else []
    cfgLearners := if masked then entry.cfgLearners else [] }

def offerNext (r : Node) : Node :=
  { r with
    applies := r.applies ++ [applyEntry r (r.applyOffered + 1)]
    applyOffered := r.applyOffered + 1 }

/-- Offers committed entries, never past a snapshot that waits to be installed. -/
def enqueueApplyFrom (r : Node) : Nat → Node
  | 0 => r
  | steps + 1 =>
    if r.snapshotInstallPending && r.snapshotRecv.lastIndex < r.applyOffered + 1 then r
    else enqueueApplyFrom (offerNext r) steps

def raftEnqueueApply (r : Node) : Node :=
  enqueueApplyFrom r (r.commitIndex - r.applyOffered).toNat

/-- Round numbers are 64 bits wide and never 0. -/
def nextContext (context : Nat) : Nat :=
  if (context + 1) % 2 ^ 64 = 0 then 1 else (context + 1) % 2 ^ 64

def raftFollowerReadMaterialize (r : Node) : Node :=
  { sendMessage r r.leaderId (.readIndex ⟨r.currentTerm, nextContext r.followerRead.context⟩) with
    followerRead := { r.followerRead with
      context := nextContext r.followerRead.context
      frozen := r.followerRead.pending.length
      elapsed := 0
      waiting := false } }

def startFollowerRead (r : Node) : Node :=
  if r.followerRead.waiting then raftFollowerReadMaterialize r else r

/-- A leader's barrier waits for a read round and for every entry committed so
far; elsewhere only the target counts. -/
def barrierReady (r : Node) (barrier : ReadBarrier) : Bool :=
  if r.state = .leader then
    r.leadershipConfirmed && decide (barrier.needsGen ≤ r.readBarrierGen) &&
      decide (max barrier.targetIndex r.commitIndex ≤ r.lastApplied)
  else decide (barrier.targetIndex ≤ r.lastApplied)

def raftCheckBarriers (r : Node) : Node :=
  let resolved := r.readBarriers.filter (barrierReady r)
  let kept := r.readBarriers.filter (fun barrier => !barrierReady r barrier)
  { emitResults r (resolved.map ReadBarrier.cookie) .ready with readBarriers := kept }

/-! ## Stages of raft_advance -/

/-- Fails the cookies of a follower's read round that got no answer in time. -/
def expireFollowerRead (r : Node) (elapsedMs : Nat) : Node :=
  if r.followerRead.frozen = 0 then r
  else
    let elapsed := raftElapsedAdd r.followerRead.elapsed elapsedMs
    if r.cfg.electionMaxMs * 2 < elapsed then
      let failed := r.followerRead.pending.take r.followerRead.frozen
      let kept := r.followerRead.pending.drop r.followerRead.frozen
      { emitResults r failed .failed with
        followerRead := { r.followerRead with
          pending := kept
          frozen := 0
          elapsed := 0
          waiting := r.followerRead.waiting || !kept.isEmpty } }
    else { r with followerRead.elapsed := elapsed }

def Node.stalled (r : Node) (barrier : ReadBarrier) : Bool :=
  decide (r.lastApplied < barrier.targetIndex)

/-- How long the state machine has made no progress. -/
def stalledFor (r : Node) (elapsedMs : Nat) : Nat :=
  if r.followerRead.barrierLastApplied ≠ r.lastApplied then 0
  else raftElapsedAdd r.followerRead.barrierElapsed elapsedMs

/-- Fails barriers of a node that does not lead when its state machine makes no
progress towards them. -/
def expireBarriers (r : Node) (elapsedMs : Nat) : Node :=
  if r.state ≠ .leader && r.readBarriers.any r.stalled then
    if r.cfg.electionMaxMs * 2 < stalledFor r elapsedMs then
      let failed := r.readBarriers.filter r.stalled
      { emitResults r (failed.map ReadBarrier.cookie) .failed with
        readBarriers := r.readBarriers.filter (fun barrier => !r.stalled barrier)
        followerRead := { r.followerRead with
          barrierElapsed := 0
          barrierLastApplied := r.lastApplied } }
    else
      { r with followerRead := { r.followerRead with
          barrierElapsed := stalledFor r elapsedMs
          barrierLastApplied := r.lastApplied } }
  else { r with followerRead := { r.followerRead with
    barrierElapsed := 0
    barrierLastApplied := r.lastApplied } }

/-- Ends a transfer with a result for its initiator, if there is one. -/
def endTransfer (r : Node) (status : ClientStatus) : Node :=
  { emitResults r ([r.transfer.cookie].filter (· ≠ 0)) status with transfer := ⟨0, 0, 0⟩ }

/-- The target holds the whole log and may lead the newest configuration. -/
def transferReached (r : Node) : Bool :=
  (raftFindPeer r r.transfer.target).any (fun peer =>
    !peer.isLearner && peer.inNewConfig && decide (raftLogLastIndex r.log ≤ peer.matchIndex))

def advanceTransfer (r : Node) (elapsedMs : Nat) : Node :=
  if !raftIdValid r.transfer.target then r
  else if transferReached r then
    let last := raftLogLastIndex r.log
    endTransfer (sendMessage r r.transfer.target
      (.timeoutNow ⟨r.currentTerm, last, raftLogTermAt r.log last, r.cfg.id⟩)) .committed
  else
    let elapsed := raftElapsedAdd r.transfer.elapsed elapsedMs
    if r.cfg.electionMinMs ≤ elapsed then endTransfer r .failed
    else { r with transfer.elapsed := elapsed }

/-! Deferred replies leave once enough persists have completed. -/

def releaseVote (r : Node) : Node :=
  if r.deferredVote.response && r.deferredVote.gen ≤ r.persistGen then
    { sendMessage r r.deferredVote.target (.requestVoteResult ⟨r.currentTerm, true, false⟩) with
      deferredVote := { r.deferredVote with response := false } }
  else r

/-- What an acknowledgement may claim: what was accepted since the latch was
taken, as far as it is durable and still in the log. -/
def appendReport (r : Node) : Int :=
  min (min r.durableConfirm r.deferredAppend.confirmed) (raftLogLastIndex r.log)

/-- Only news is reported. -/
def reportAppend (r : Node) : Node :=
  if r.deferredAppend.lastIndex < appendReport r then
    { sendMessage r r.deferredAppend.target (.appendEntriesResult
        ⟨r.currentTerm, 0, appendReport r, 0, 0, r.deferredAppend.readContext, true⟩) with
      deferredAppend := { r.deferredAppend with lastIndex := appendReport r } }
  else r

/-- The latch stays until everything it covers is durable. -/
def settleAppend (r : Node) : Node :=
  if r.deferredAppend.confirmed ≤ r.durableConfirm then { r with deferredAppend.response := false }
  else r

def releaseAppend (r : Node) : Node :=
  if r.deferredAppend.response && r.deferredAppend.gen ≤ r.persistGen then
    settleAppend (reportAppend r)
  else r

def releaseReject (r : Node) : Node :=
  if r.deferredReject.pending && r.deferredReject.gen ≤ r.persistGen then
    { sendMessage r r.deferredReject.target (.appendEntriesResult
        ⟨r.currentTerm, r.deferredReject.hint, r.deferredReject.lastIndex,
          r.deferredReject.conflictTerm, r.deferredReject.conflictFirstIndex,
          r.deferredReject.readContext, false⟩) with
      deferredReject := { r.deferredReject with pending := false } }
  else r

def releaseVoteRequest (r : Node) : Node :=
  if r.deferredVoteRequest.pending && r.deferredVoteRequest.gen ≤ r.persistGen &&
      r.state = .candidate then
    { raftBroadcastVote r false with
      deferredVoteRequest := { r.deferredVoteRequest with pending := false } }
  else r

def campaign (r : Node) : Node × Int :=
  if r.state ≠ .leader && r.timers.electionDeadline ≤ r.timers.electionElapsed then
    raftStartPreVote r
  else (r, 0)

def reapplyStale (r : Node) : Node × Int :=
  if r.config.applyStale then raftApplyConfigFromLog r else (r, 0)

def tickIfLeader (r : Node) (elapsedMs : Nat) : Node :=
  if r.state = .leader then raftLeaderTick r elapsedMs else r

/-- A configuration that cannot be put in force, or a refused candidacy, ends
the round before anything is offered for apply. -/
def raftAdvanceInner (r : Node) (elapsedMs : Nat) : Node :=
  match reapplyStale r with
  | (r, 0) =>
    match campaign r with
    | (r, 0) => raftCheckBarriers (raftEnqueueApply (tickIfLeader r elapsedMs))
    | (r, _) => r
  | (r, _) => r

/-! ## The persist view -/

/-- The snapshot a view names: one that was received and waits to be installed,
else a local one whose file is complete. -/
def dirtySnapshot (r : Node) : Option SnapshotMeta :=
  if r.snapshotInstallPending then some r.snapshotRecv
  else if r.snapshotPendingDirty && r.snapshotDataReadyFlag then some r.snapshotPending
  else none

def persistEntry (idx : Int) (entry : Entry) : PersistEntry :=
  ⟨idx, entry.term, entry.kind, entry.cfgOld, entry.cfgNew, entry.cfgLearners, entry.data⟩

/-- The log entries from an index on. -/
def persistEntries (log : Log) (startIdx : Int) : List PersistEntry :=
  ((log.entries.zipIdx).drop (log.offset startIdx)).map
    (fun item => persistEntry (log.lastIncludedIndex + 1 + item.2) item.1)

/-- The first index of the next view: above the snapshot it names, above the
log's base and above what the caller has reported durable. -/
def viewStart (r : Node) (baseIndex : Int) : Int :=
  max (max (baseIndex + 1) (r.log.lastIncludedIndex + 1)) (r.persistSyncedIndex + 1)

def persistView (r : Node) : Persist :=
  match dirtySnapshot r with
  | some snapshot =>
    { term := r.currentTerm
      votedFor := r.votedFor
      lastIncludedIndex := snapshot.lastIndex
      lastIncludedTerm := snapshot.lastTerm
      snapshotDirty := true
      snapshotSize := snapshot.size
      snapshotCfgOld := snapshot.cfgOld
      snapshotCfgNew := snapshot.cfgNew
      snapshotCfgLearners := snapshot.cfgLearners
      logEntries := persistEntries r.log (viewStart r snapshot.lastIndex) }
  | none =>
    { term := r.currentTerm
      votedFor := r.votedFor
      lastIncludedIndex := r.log.lastIncludedIndex
      lastIncludedTerm := r.log.lastIncludedTerm
      snapshotDirty := false
      snapshotSize := 0
      snapshotCfgOld := []
      snapshotCfgNew := []
      snapshotCfgLearners := []
      logEntries := persistEntries r.log (viewStart r r.log.lastIncludedIndex) }

/-- Assembles the Ready bundle. The view stays on offer until the caller has
consumed a bundle that holds it. -/
def advanceOutput (r : Node) (phaseStopped : Bool) : Node × Ready :=
  let pending := r.readyPersistPending || r.persistNeeded
  let r := { r with
    readyPersistPending := pending
    persistNeeded := false }
  (r,
    { phaseStopped := phaseStopped
      persist := if pending then some (persistView r) else none
      applies := r.applies
      results := r.results
      msgs := r.msgs
      snapshotInstallNeeded := r.snapshotInstallPending
      snapshotLastIndex := if r.snapshotInstallPending then r.snapshotRecv.lastIndex else 0
      snapshotLastTerm := if r.snapshotInstallPending then r.snapshotRecv.lastTerm else 0
      snapshotSize := if r.snapshotInstallPending then r.snapshotRecv.size else 0
      snapReads := r.snapReads })

/-! ## raft_advance -/

def advanceTimers (r : Node) (elapsedMs : Nat) (contact : Bool) : Node :=
  { r with timers := { r.timers with
      heartbeatElapsed := raftElapsedAdd r.timers.heartbeatElapsed elapsedMs
      electionElapsed := raftElapsedAdd r.timers.electionElapsed elapsedMs
      leaderContactElapsed :=
        if contact then raftElapsedAdd r.timers.leaderContactElapsed elapsedMs
        else r.timers.leaderContactElapsed } }

/-- Nothing is left for the caller to take. -/
def drained (r : Node) : Bool :=
  r.applies.isEmpty && r.results.isEmpty && r.msgs.isEmpty && r.snapReads.isEmpty &&
    !r.persistNeeded && !r.snapshotInstallPending

def dropReadIndex (r : Node) : Node :=
  { r with
    readIndexPending := []
    readIndexHeartbeatSent := false }

def failCatchup (r : Node) : Node :=
  if r.catchup.active && r.catchup.cookie ≠ 0 then
    { raftResultEmit r r.catchup.cookie .failed with catchup := Catchup.none }
  else r

/-- The last act of a stopping node: every client that still waits has failed. -/
def finishDrain (r : Node) : Node :=
  { endTransfer (failCatchup (dropReadIndex (raftFlushClientResults r .failed))) .failed with
    phase := .stopped }

def advanceDrain (r : Node) (elapsedMs : Nat) : Node × Ready :=
  let r := raftCheckBarriers (raftEnqueueApply (advanceTimers r elapsedMs true))
  if drained r then advanceOutput (finishDrain r) true else advanceOutput r false

/-- What a stopped node answers. -/
def stoppedReady : Ready :=
  { phaseStopped := true
    persist := none
    applies := []
    results := []
    msgs := []
    snapshotInstallNeeded := false
    snapshotLastIndex := 0
    snapshotLastTerm := 0
    snapshotSize := 0
    snapReads := [] }

/-- Timers, expired reads, transfers and the release of deferred replies. -/
def advanceReplies (r : Node) (elapsedMs : Nat) : Node :=
  let timed := advanceTimers r elapsedMs (r.state ≠ .leader)
  let expired := expireBarriers (expireFollowerRead timed elapsedMs) elapsedMs
  let transferred := advanceTransfer (startFollowerRead expired) elapsedMs
  releaseVoteRequest (releaseReject (releaseAppend (releaseVote transferred)))

/-- A stop request turns a node into a draining follower at the next call. -/
def enterPhase (r : Node) : Node :=
  match r.phase with
  | .stopping =>
    { r with
      state := .follower
      leaderId := 0
      snapshotDataReadyFlag := false
      snapshotPendingDirty := false
      phase := .draining }
  | .ready => { r with phase := .running }
  | _ => r

def raftAdvance (r : Node) (elapsedMs : Nat) : Node × Ready :=
  let r := enterPhase r
  match r.phase with
  | .draining => advanceDrain r elapsedMs
  | .stopped => (r, stoppedReady)
  | _ => advanceOutput (raftAdvanceInner (advanceReplies r elapsedMs) elapsedMs) false

def raftStop (r : Node) : Node :=
  match r.phase with
  | .ready => { r with phase := .stopping }
  | .running => { r with phase := .stopping }
  | _ => r

def raftReadyConsumed (r : Node) : Node :=
  { r with
    applies := []
    results := []
    msgs := []
    snapReads := []
    readyPersistPending := false }

/-! ## Creation -/

def chunkBits (size : Nat) : Nat := ((List.range 21).find? (fun bits => size ≤ 2 ^ bits)).getD 20

def chunkSizeOf (logChunkSize : Int) : Nat :=
  2 ^ chunkBits (if 0 < logChunkSize then logChunkSize.toNat else 256)

/-- The bootstrap voters: the full list of peers with this node in it, none for
a node that joins later, the node itself otherwise. -/
def bootstrapVoters (cfg : CreateConfig) : Option (List Int) :=
  if cfg.peers.isEmpty then
    if cfg.bootstrap then some [] else raftMakeSortedIds [cfg.id]
  else do
    let voters ← raftMakeSortedIds cfg.peers
    if raftMaskHas voters cfg.id then some voters else none

/-- A node before anything is restored. -/
def freshNode (cfg : CreateConfig) (voters : List Int) : Node :=
  let settings : Settings :=
    ⟨cfg.id, cfg.heartbeatMs, cfg.electionMinMs, cfg.electionMaxMs, cfg.snapshotChunkSize⟩
  { cfg := settings
    phase := .ready
    state := .follower
    votedFor := 0
    leaderId := 0
    currentTerm := 0
    commitIndex := 0
    lastApplied := 0
    applyOffered := 0
    timers := raftResetElectionDeadline settings ⟨cfg.seed, 0, 0, 0, 0, 0⟩
    inPreVote := false
    transfer := ⟨0, 0, 0⟩
    persistNeeded := false
    readyPersistPending := false
    peers := (cfg.peers.filter (· ≠ cfg.id)).map (fun id =>
      { id
        nextIndex := 1
        inOldConfig := true
        inNewConfig := true })
    log := ⟨[], 0, 0, chunkSizeOf cfg.logChunkSize⟩
    config := ⟨voters, voters, [], voters, false, [], [], [], false, 0, 0, false⟩
    catchup := Catchup.none
    snapshot := .zero
    snapshotPending := .zero
    snapshotPendingDirty := false
    snapshotDataReadyFlag := false
    snapshotRecv := .zero
    snapshotRecvExpectedOffset := 0
    snapshotInstallPending := false
    deferredVote := ⟨false, 0, 0⟩
    deferredVoteRequest := ⟨false, 0⟩
    deferredAppend := ⟨false, 0, 0, 0, 0, 0⟩
    deferredReject := ⟨false, 0, 0, 0, 0, 0, 0, 0⟩
    persistGen := 0
    termDirtyGen := 0
    durableIndex := 0
    persistSyncedIndex := 0
    durableConfirm := 0
    readBarriers := []
    leadershipConfirmed := false
    readBarrierGen := 0
    followerRead := ⟨[], 0, false, 0, 0, 0, 0⟩
    readIndexPending := []
    readContext := 0
    readIndexHeartbeatSent := false
    clientPending := []
    msgs := []
    applies := []
    results := []
    snapReads := [] }

/-- The voters a restored snapshot brings. -/
def restoreVoters (r : Node) (p : Persist) : Option Node :=
  if p.snapshotCfgOld.isEmpty then some r
  else do
    let old ← raftMakeSortedIds p.snapshotCfgOld
    let new ← raftMakeSortedIds p.snapshotCfgNew
    some { r with
      config.old := old
      config.new := new
      config.joint := p.snapshotCfgOld != p.snapshotCfgNew
      snapshot.cfgOld := old
      snapshot.cfgNew := new }

def restoreLearners (r : Node) (p : Persist) : Option Node :=
  if p.snapshotCfgLearners.isEmpty then some r
  else do
    let learners ← raftMakeSortedIds p.snapshotCfgLearners
    some { r with
      config.learners := learners
      snapshot.cfgLearners := learners }

def restoreEntries (log : Log) : List PersistEntry → Option Log
  | [] => some log
  | entry :: rest =>
    if entry.index ≠ raftLogLastIndex log + 1 || entry.term < 0 || termOutOfRange entry.term ||
        2 < entry.kind then none
    else restoreEntries (raftLogAppend log ⟨entry.term, entry.kind, entry.data, entry.cfgOld,
      entry.cfgNew, entry.cfgLearners⟩) rest

/-- The restored log counts as durable up to its tip. -/
def restoreNode (r : Node) (p : Persist) : Option Node :=
  if p.term < 0 || termOutOfRange p.term || p.lastIncludedIndex < 0 || p.lastIncludedTerm < 0 ||
      termOutOfRange p.lastIncludedTerm || p.snapshotSize < 0 then none
  else do
    let r ← restoreVoters { r with
      currentTerm := p.term
      votedFor := p.votedFor
      commitIndex := p.lastIncludedIndex
      lastApplied := p.lastIncludedIndex
      applyOffered := p.lastIncludedIndex
      log := ⟨[], p.lastIncludedIndex, p.lastIncludedTerm, r.log.chunkSize⟩
      snapshot := ⟨p.lastIncludedIndex, p.lastIncludedTerm, p.snapshotSize, [], [], []⟩ } p
    let r ← restoreLearners r p
    let log ← restoreEntries r.log p.logEntries
    let tip := raftLogLastIndex log
    match raftApplyConfigFromLog { r with
        log := log
        durableIndex := tip
        durableConfirm := tip
        persistSyncedIndex := tip } with
    | (r, 0) => some (rebuildPeers r)
    | _ => none

def restoreFrom (r : Node) (restore : Option Persist) : Option Node :=
  match restore with
  | none => some r
  | some p => restoreNode r p

def raftCreate (cfg : CreateConfig) : Option Node :=
  if cfg.heartbeatMs = 0 || cfg.electionMinMs = 0 then none
  else do
    let voters ← bootstrapVoters cfg
    let r ← restoreFrom (freshNode cfg voters) cfg.restore
    some { r with config.appliedIndex := r.lastApplied }

end Kynovo.Raft
