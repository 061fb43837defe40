import Kynovo.Raft.Recv

/-! Client requests, local snapshots, and the completion calls of the caller. -/
namespace Kynovo.Raft

/-! ## Client requests -/

/-- The pending clients of a batch, by log index. -/
def pendingFrom (baseIndex : Int) (commands : List Command) : List ClientPending :=
  commands.zipIdx.map (fun item => ⟨item.1.cookie, baseIndex + item.2⟩)

def raftSubmit (r : Node) (commands : List Command) : Node × Int :=
  if commands.isEmpty then (r, 0)
  else if r.phase ≠ .running || r.state ≠ .leader || raftIdValid r.transfer.target ||
      commands.any (fun item => item.cookie == 0) then (r, -1)
  else
    let baseIndex := raftLogLastIndex r.log + 1
    ({ r with
        log := raftLogAppendCommands r.log r.currentTerm commands
        clientPending := r.clientPending ++ pendingFrom baseIndex commands
        persistNeeded := true
        timers.heartbeatElapsed := r.cfg.heartbeatMs }, 0)

/-- A leader's barrier waits for the next read round; only the first of a batch
starts a new round. -/
def leaderBarrier (r : Node) (cookie : Nat) : Node :=
  joinRound { r with
    readBarriers := r.readBarriers ++ [⟨cookie, r.commitIndex, wrap32 (r.readBarrierGen + 1)⟩] }
    (r.readBarriers.length + 1)

def raftBarrier (r : Node) (cookie : Nat) : Node × Int :=
  if cookie = 0 || r.phase ≠ .running then (r, -1)
  else
    match r.state with
    | .leader =>
      if raftIdValid r.transfer.target || !r.mayServeReads then (r, -1)
      else (leaderBarrier r cookie, 0)
    | .follower =>
      if !raftIdValid r.leaderId then (r, -1)
      else
        ({ r with followerRead := { r.followerRead with
            pending := r.followerRead.pending ++ [cookie]
            waiting := r.followerRead.waiting || r.followerRead.frozen == 0 } }, 0)
    | .candidate => (r, -1)

/-- The guards that both learner changes share. -/
def learnerChangeRefused (r : Node) (cookie : Nat) (learnerId : Int) : Bool :=
  cookie == 0 || r.phase != .running || r.state != .leader || raftIdValid r.transfer.target ||
    r.config.joint || r.catchup.active || !raftIdValid learnerId

/-- Retires a change that committed and cancels one that was never appended. -/
def admitLearnerChange (r : Node) : Node :=
  let r := raftConfigZombieClear r
  if r.config.pending && r.config.index = 0 then raftConfigPendingClear r else r

/-- Learners in order, with one more. -/
def insertLearner (learners : List Int) (learnerId : Int) : List Int :=
  learners.takeWhile (fun id => decide (id < learnerId)) ++
    learnerId :: learners.dropWhile (fun id => decide (id < learnerId))

def raftAddLearner (r : Node) (cookie : Nat) (learnerId : Int) : Node × Int :=
  if learnerChangeRefused r cookie learnerId || raftMaskHas r.config.old learnerId ||
      raftIsLearner r.config.learners learnerId then (r, -1)
  else if (raftConfigZombieClear r).config.pending && 0 < (raftConfigZombieClear r).config.index then
    (raftConfigZombieClear r, -1)
  else
    let r := admitLearnerChange r
    let learners := insertLearner r.config.learners learnerId
    match raftCommitConfigEntry (setPending r r.config.old learners) cookie with
    | (r, 0) =>
      ({ r with
          peers := updatePeer r.peers learnerId (fun peer => { peer with catchupCookie := cookie }) },
        0)
    | refused => refused

def raftRemoveLearner (r : Node) (cookie : Nat) (learnerId : Int) : Node × Int :=
  if learnerChangeRefused r cookie learnerId || !raftIsLearner r.config.learners learnerId then
    (r, -1)
  else if (raftConfigZombieClear r).config.pending && 0 < (raftConfigZombieClear r).config.index then
    (raftConfigZombieClear r, -1)
  else
    let r := admitLearnerChange r
    let learners := r.config.learners.filter (· ≠ learnerId)
    raftCommitConfigEntry (setPending r r.config.old learners) cookie

def raftTransfer (r : Node) (cookie : Nat) (targetId : Int) : Node × Int :=
  if cookie = 0 || r.phase ≠ .running || r.state ≠ .leader || raftIdValid r.transfer.target ||
      !raftIdValid targetId || (raftFindPeer r targetId).any Peer.isLearner then (r, -1)
  else ({ r with transfer := ⟨targetId, 0, cookie⟩ }, 0)

def raftRecvfromClient (r : Node) (msg : ClientMessage) : Node × Int :=
  match msg with
  | .submit commands => raftSubmit r commands
  | .barrier cookie => raftBarrier r cookie
  | .reconfig cookie ids => raftReconfig r cookie ids
  | .addLearner cookie learnerId => raftAddLearner r cookie learnerId
  | .removeLearner cookie learnerId => raftRemoveLearner r cookie learnerId
  | .transfer cookie targetId => raftTransfer r cookie targetId

/-! ## Local snapshots -/

def raftHasConfigBeyond (r : Node) (appliedIndex : Int) : Bool :=
  let start := max (appliedIndex + 1) (r.log.lastIncludedIndex + 1)
  (r.log.entries.drop (r.log.offset start)).any (fun entry => decide (entry.kind = entryConfig))

def raftSnapshot (r : Node) : Node × Int :=
  if r.phase ≠ .running || r.state = .candidate || r.snapshotPendingDirty || r.config.applyStale ||
      raftHasConfigBeyond r r.lastApplied then (r, -1)
  else
    let taken : SnapshotMeta :=
      ⟨r.lastApplied, raftLogTermAt r.log r.lastApplied, 0, r.config.old, r.config.new, []⟩
    match raftMakeSortedIds r.config.learners with
    | none =>
      ({ r with
          snapshotPending := { taken with
            cfgOld := []
            cfgNew := [] } }, -1)
    | some learners =>
      ({ r with
          snapshotPending := { taken with cfgLearners := learners }
          snapshotPendingDirty := true }, 0)

def raftSnapshotDataReady (r : Node) (totalSize : Int) : Node × Int :=
  if r.phase ≠ .running then (r, -1)
  else
    ({ r with
        snapshotPending.size := totalSize
        snapshotDataReadyFlag := true
        persistNeeded := true }, 0)

/-- The chunk names the snapshot that is streamed now; an echo of an older
stream is dropped. -/
def raftSnapshotDataProvided (r : Node) (followerId byteOffset : Int) (size : Nat) : Node × Int :=
  if !raftIdValid followerId || r.phase ≠ .running || r.state ≠ .leader then (r, -1)
  else
    match raftFindPeer r followerId with
    | none => (r, -1)
    | some peer =>
      if byteOffset ≠ peer.pendingSnapshotOffset then (r, 0)
      else
        let sent := min (size : Int) (max (r.snapshot.size - byteOffset) 0)
        let r := sendMessage r followerId (.installSnapshot
          { term := r.currentTerm
            snapshotLastIndex := r.snapshot.lastIndex
            snapshotLastTerm := r.snapshot.lastTerm
            snapshotOffset := byteOffset
            snapshotDataSize := r.snapshot.size
            snapshotChunkSize := sent
            snapshotCfgOld := r.snapshot.cfgOld
            snapshotCfgNew := r.snapshot.cfgNew
            snapshotCfgLearners := r.snapshot.cfgLearners
            snapshotDone := byteOffset + sent == r.snapshot.size
            leaderId := r.cfg.id })
        ({ r with
            peers := updatePeer r.peers followerId
              (fun peer => { peer with pendingSnapshotOffset := byteOffset + sent }) }, 0)

/-! ## Completions -/

def Node.completing (r : Node) : Bool := r.phase == .running || r.phase == .draining

/-- A completed persist moves the generation and the durability frontier. The
reported index is trusted up to the log's tip of this moment. -/
def persistReported (r : Node) (durableIndex : Int) : Node :=
  let confirmed := min durableIndex (raftLogLastIndex r.log)
  { r with
    persistGen := r.nextGen
    durableIndex := max r.durableIndex durableIndex
    durableConfirm := max r.durableConfirm confirmed
    persistSyncedIndex := max r.persistSyncedIndex confirmed }

def commitIfLeader (r : Node) : Node := if r.state = .leader then raftAdvanceCommit r else r

def raftPersistComplete (r : Node) (durableIndex : Int) : Node × Int :=
  if !r.completing then (r, -1)
  else (commitIfLeader (persistReported r durableIndex), 0)

/-- The prefix a local snapshot covers is compacted once the snapshot itself is
durable. -/
def raftSnapshotPersistComplete (r : Node) (durableIndex : Int) : Node × Int :=
  if !r.completing then (r, -1)
  else if r.snapshotPendingDirty && r.snapshotDataReadyFlag &&
      r.snapshotPending.lastIndex ≤ durableIndex then
    match raftLogCompactPrefix r.log r.snapshotPending.lastIndex r.snapshotPending.lastTerm with
    | none => (r, -1)
    | some log =>
      ({ r with
          log := log
          snapshot := r.snapshotPending
          peers := r.peers.map (fun peer => { peer with pendingSnapshotOffset := 0 })
          snapshotPendingDirty := false
          snapshotDataReadyFlag := false
          snapshotPending := { r.snapshotPending with
            cfgOld := []
            cfgNew := []
            cfgLearners := [] } }, 0)
  else (r, 0)

/-! The applied entries are scanned for configurations that are now committed. -/

def retirePending (r : Node) (idx : Int) : Node :=
  if r.config.pending && idx = r.config.index then raftConfigPendingOnlyClear r else r

/-- A committed configuration: a joint one is finalised by a leader, a final one
is put in force. The flag says that this node is a leader no longer in it. -/
def commitConfig (r : Node) (idx : Int) (entry : Entry) : Node × Int × Bool :=
  let r := retirePending r idx
  if entry.cfgOld ≠ entry.cfgNew then
    if r.state = .leader then
      let (r, rc) := raftFinalizeJoint r idx entry.cfgNew
      (r, rc, false)
    else (r, 0, false)
  else
    let (r, rc) := raftApplyConfigFromLog r
    (r, rc, r.state == .leader && !raftMaskHas entry.cfgNew r.cfg.id)

/-- Scans upwards from an index. -/
def scanCommitted (r : Node) (selfRemoved : Bool) : Nat → Int → Node × Int × Bool
  | 0, _ => (r, 0, selfRemoved)
  | steps + 1, idx =>
    match r.log.configAt idx with
    | none => scanCommitted r selfRemoved steps (idx + 1)
    | some entry =>
      match commitConfig r idx entry with
      | (r, 0, removed) => scanCommitted r (selfRemoved || removed) steps (idx + 1)
      | (r, rc, _) => (r, rc, selfRemoved)

/-- The boundary entry is in the log with the snapshot's term. -/
def boundaryMatches (r : Node) : Bool :=
  decide (r.snapshotRecv.lastIndex ≤ raftLogLastIndex r.log) &&
    raftLogTermAt r.log r.snapshotRecv.lastIndex == r.snapshotRecv.lastTerm

/-- The log keeps what follows a boundary it agrees with; otherwise nothing is
kept. -/
def installLog (r : Node) : Node :=
  let keep :=
    if boundaryMatches r then
      raftLogCompactPrefix r.log r.snapshotRecv.lastIndex r.snapshotRecv.lastTerm
    else none
  match keep with
  | some log => { r with log := log }
  | none =>
    raftDurableClamp { r with
      log := ⟨[], r.snapshotRecv.lastIndex, r.snapshotRecv.lastTerm, r.log.chunkSize⟩ }
      r.snapshotRecv.lastIndex

/-- The configuration a received snapshot brings; without masks it is empty. -/
def installConfig (r : Node) : Node :=
  let old := r.snapshotRecv.cfgOld
  let new := if r.snapshotRecv.cfgOld.isEmpty then [] else r.snapshotRecv.cfgNew
  { r with config := { r.config with
      old := old
      new := new
      learners := r.snapshotRecv.cfgLearners
      joint := old != new } }

/-- Installs the received snapshot, without the answer to the leader. -/
def installState (r : Node) : Node :=
  let logged := installLog (installConfig r)
  let applied := max r.lastApplied r.snapshotRecv.lastIndex
  let rebuilt := rebuildPeers { logged with
    lastApplied := applied
    applyOffered := max r.applyOffered applied
    commitIndex := max r.commitIndex logged.log.lastIncludedIndex }
  { rebuilt with
    snapshot := r.snapshotRecv
    snapshotRecv := .zero
    snapshotInstallPending := false }

/-- A local snapshot behind the installed one is dropped. -/
def dropStalePending (r : Node) : Node :=
  if r.snapshotPending.lastIndex < r.snapshot.lastIndex then
    { r with
      snapshotPendingDirty := false
      snapshotDataReadyFlag := false
      snapshotPending := { r.snapshotPending with
        cfgOld := []
        cfgNew := []
        cfgLearners := [] } }
  else r

def answerInstall (r : Node) : Node :=
  if raftIdValid r.leaderId then
    sendMessage r r.leaderId (.installSnapshotResult ⟨r.currentTerm, r.snapshot.lastIndex⟩)
  else r

def installSnapshot (r : Node) : Node × Int :=
  if r.snapshotRecv.lastIndex < r.log.lastIncludedIndex then
    ({ r with snapshotInstallPending := false }, 0)
  else
    match raftApplyConfigFromLog (installState r) with
    | (r, 0) => (answerInstall (dropStalePending r), 0)
    | (r, _) => (r, -1)

/-- The clients whose entries are applied are told so; they are the front of the
list. -/
def retireClients (r : Node) : Node :=
  let isDone := fun (item : ClientPending) => decide (item.logIndex ≤ r.lastApplied)
  { emitResults r ((r.clientPending.takeWhile isDone).map ClientPending.cookie) .committed with
    clientPending := r.clientPending.dropWhile isDone }

/-- The snapshot that waits is the one being reported. -/
def installDue (r : Node) (appliedIndex : Int) : Bool :=
  r.snapshotInstallPending && decide (r.snapshotRecv.lastIndex ≤ appliedIndex)

def markApplied (r : Node) (appliedIndex : Int) : Node :=
  let applied := if installDue r appliedIndex then r.lastApplied else max r.lastApplied appliedIndex
  { r with
    lastApplied := applied
    applyOffered := max r.applyOffered applied }

def installIfDue (r : Node) (appliedIndex : Int) : Node × Int :=
  if installDue r appliedIndex then installSnapshot r else (r, 0)

/-- A leader that committed its own removal steps down. -/
def leaveIfRemoved (r : Node) (selfRemoved : Bool) : Node :=
  if selfRemoved && r.state = .leader then raftStepDown r r.currentTerm 0 else r

/-- The applied entries up to the newest, scanned from where the last call
stopped. -/
def applyScan (r : Node) (appliedIndex : Int) : Node × Int × Bool :=
  let marked := markApplied r appliedIndex
  scanCommitted marked false (marked.lastApplied - marked.config.appliedIndex).toNat
    (marked.config.appliedIndex + 1)

def markScanned (r : Node) : Node := { r with config.appliedIndex := r.lastApplied }

def raftApplyComplete (r : Node) (appliedIndex : Int) : Node × Int :=
  if !r.completing then (r, -1)
  else
    match applyScan r appliedIndex with
    | (scanned, 0, selfRemoved) =>
      match installIfDue (markScanned scanned) appliedIndex with
      | (installed, 0) => (leaveIfRemoved (retireClients installed) selfRemoved, 0)
      | (refused, _) => (refused, -1)
    | (refused, _, _) => (refused, -1)

end Kynovo.Raft
