import Kynovo.Raft.Election

/-! Configurations take effect when they enter the log. The peer list is rebuilt
from the latest configuration entry, or from the base configuration when the
log holds none; a joint configuration is finalised once it is committed. -/
namespace Kynovo.Raft

/-! ## Peer rebuild -/

/-- Progress carried over from an old peer entry with the same id. -/
def raftPeerCarry (dst : Peer) (old : List Peer) (requireLearner : Bool) : Peer :=
  match old.find? (fun peer => peer.id == dst.id && (!requireLearner || peer.isLearner)) with
  | none => dst
  | some peer =>
    let dst := { dst with
      nextIndex := peer.nextIndex
      matchIndex := peer.matchIndex
      pendingSnapshotOffset := peer.pendingSnapshotOffset
      pendingSnapshotLastIndex := peer.pendingSnapshotLastIndex }
    if dst.isLearner then
      { dst with
        catchupRound := peer.catchupRound
        catchupRoundStartIndex := peer.catchupRoundStartIndex
        catchupRoundElapsed := peer.catchupRoundElapsed
        catchupCookie := peer.catchupCookie }
    else dst

/-- Adds the voters of one configuration; a voter that is already listed only
gains the configuration's flag. -/
def addVoters (r : Node) (ids : List Int) (inOld inNew : Bool) (listed : List Peer) : List Peer :=
  ids.foldl (fun listed id =>
    if id = r.cfg.id then listed
    else if listed.any (fun peer => peer.id == id) then
      updatePeer listed id (fun peer => { peer with
        inOldConfig := peer.inOldConfig || inOld
        inNewConfig := peer.inNewConfig || inNew })
    else listed ++ [raftPeerCarry { id
                                    inOldConfig := inOld
                                    inNewConfig := inNew
                                    nextIndex := raftLogLastIndex r.log + 1 } r.peers false]) listed

def addLearners (r : Node) (listed : List Peer) : List Peer :=
  r.config.learners.foldl (fun listed id =>
    if id = r.cfg.id then listed
    else if listed.any (fun peer => peer.id == id) then listed
    else listed ++ [raftPeerCarry { id
                                    isLearner := true
                                    nextIndex := raftLogLastIndex r.log + 1 } r.peers true]) listed

def raftRebuildPeersNormal (r : Node) : Node :=
  { r with peers := addLearners r (addVoters r r.config.new true true []) }

def raftRebuildPeersJoint (r : Node) : Node :=
  { r with
    peers := addLearners r
      (addVoters r r.config.new false true (addVoters r r.config.old true false [])) }

def rebuildPeers (r : Node) : Node :=
  if r.config.joint then raftRebuildPeersJoint r else raftRebuildPeersNormal r

/-! ## Applying a configuration -/

/-- The configurations found above an index, in log order, with their indexes. -/
def configsAbove (log : Log) (afterIdx : Int) : List (Int × Entry) :=
  (List.range log.entries.length).filterMap (fun offset =>
    let idx := log.lastIncludedIndex + 1 + offset
    if afterIdx < idx then (log.configAt idx).map (fun entry => (idx, entry)) else none)

/-- Index of the first final configuration above an index, 0 when there is none. -/
def raftFindExistingFinalConfig (r : Node) (afterIdx : Int) : Int :=
  (((configsAbove r.log afterIdx).find?
    (fun found => found.2.cfgOld == found.2.cfgNew)).map Prod.fst).getD 0

/-- A voter is never a learner. -/
def raftAssignLearnersFiltered (learners voters : List Int) : List Int :=
  learners.filter (fun id => !raftMaskHas voters id)

/-- The configuration that masks describe, if their ids are valid. -/
def assignMasks (config : Membership) (cmOld cmNew cmLearners : List Int) : Option Membership := do
  let joint := cmOld != cmNew
  let old ← raftMakeSortedIds (if joint then cmOld else cmNew)
  let new ← raftMakeSortedIds cmNew
  some { config with
    old := old
    new := new
    learners := raftAssignLearnersFiltered cmLearners cmNew
    joint := joint
    applyStale := false }

/-- The old learners are copied first, for the way back; learners with an id
twice make the copy fail. -/
def raftApplyConfigMasks (r : Node) (cmOld cmNew cmLearners : List Int) : Node × Int :=
  match raftMakeSortedIds r.config.learners with
  | none => ({ r with config.applyStale := true }, -1)
  | some saved =>
    match assignMasks r.config cmOld cmNew cmLearners with
    | none =>
      ({ r with
          config.learners := saved
          config.applyStale := true }, -1)
    | some config => (rebuildPeers { r with config := config }, 0)

/-- The configuration the log starts from. -/
def baseMasks (r : Node) : List Int × List Int × List Int :=
  if 0 < r.log.lastIncludedIndex && !r.snapshot.cfgOld.isEmpty then
    (r.snapshot.cfgOld, r.snapshot.cfgNew, r.snapshot.cfgLearners)
  else (r.config.bootstrap, r.config.bootstrap, [])

def raftApplyConfigFromLog (r : Node) : Node × Int :=
  match (configsAbove r.log r.log.lastIncludedIndex).getLast? with
  | some (_, entry) => raftApplyConfigMasks r entry.cfgOld entry.cfgNew entry.cfgLearners
  | none =>
    let (old, new, learners) := baseMasks r
    -- nothing to rebuild when the base is already in force
    if !r.config.applyStale && r.config.old == old && r.config.new == new &&
        r.config.learners == learners && r.config.joint == (old != new) then (r, 0)
    else raftApplyConfigMasks r old new learners

/-! ## Joint consensus -/

/-- The change at an index is pending. -/
def trackChange (r : Node) (idx : Int) : Node :=
  { r with
    config.pending := true
    config.index := idx }

def untrackChange (r : Node) : Node :=
  { r with
    config.pending := false
    config.index := 0 }

def addFinal (r : Node) (voters : List Int) : Node :=
  { trackChange r (raftLogLastIndex r.log + 1) with
    log := raftLogAppend r.log (configEntry r.currentTerm voters voters r.config.learners) }

/-- Appends a final configuration and puts it in force. -/
def appendFinal (r : Node) (voters : List Int) : Node × Int :=
  match raftApplyConfigFromLog (addFinal r voters) with
  | (applied, 0) => ({ applied with persistNeeded := true }, 0)
  | (refused, _) => (untrackChange (raftLogCut refused (raftLogLastIndex r.log)), -1)

/-- Moves the waiting client of the joint entry to the final entry. -/
def repointPending (pending : List ClientPending) (jointIdx finalIdx : Int) : List ClientPending :=
  match pending with
  | [] => []
  | item :: rest =>
    if item.logIndex = jointIdx then { item with logIndex := finalIdx } :: rest
    else item :: repointPending rest jointIdx finalIdx

def raftFinalizeJoint (r : Node) (jointIdx : Int) (cmNew : List Int) : Node × Int :=
  let existing := raftFindExistingFinalConfig r jointIdx
  if 0 < existing then
    raftApplyConfigFromLog (trackChange r existing)
  else
    match appendFinal r cmNew with
    | (r, 0) =>
      ({ r with clientPending := repointPending r.clientPending jointIdx r.config.index }, 0)
    | refused => refused

def raftMaybeFinalizeJoint (r : Node) : Node × Int :=
  if r.state ≠ .leader then (r, 0)
  else if !r.config.joint || !r.config.pending || r.config.index ≤ 0 then (r, 0)
  else if r.commitIndex < r.config.index then (r, 0)
  else
    match r.log.configAt r.config.index with
    | none => (r, 0)
    | some entry =>
      if entry.cfgOld = entry.cfgNew then (r, 0)
      else raftFinalizeJoint r r.config.index entry.cfgNew

/-- What a new leader owes a joint configuration: finalise one that a snapshot
holds or that is committed, take charge of one that is not committed yet. -/
def settleJoint (r : Node) : Node :=
  if !r.config.joint then r
  else
    let lastJoint := ((configsAbove r.log r.log.lastIncludedIndex).filter
      (fun found => found.2.cfgOld != found.2.cfgNew)).getLast?
    match lastJoint with
    | none =>
      if 0 < r.log.lastIncludedIndex && r.snapshot.cfgOld != r.snapshot.cfgNew &&
          raftFindExistingFinalConfig r 0 == 0 then (appendFinal r r.config.new).1
      else r
    | some (idx, entry) =>
      if idx ≤ r.commitIndex && raftFindExistingFinalConfig r idx == 0 then
        (appendFinal r entry.cfgNew).1
      else if r.commitIndex < idx && !r.config.pending then
        { trackChange r idx with timers.jointElapsed := 0 }
      else r

/-- A new leader starts with a no-op of its term and no progress of its peers. -/
def leaderFields (r : Node) : Node :=
  let log := raftLogAppend r.log (noopEntry r.currentTerm)
  { r with
    log := log
    state := .leader
    leaderId := r.cfg.id
    leadershipConfirmed := false
    inPreVote := false
    persistNeeded := true
    timers := { r.timers with
      heartbeatElapsed := 0
      electionElapsed := 0
      leaderContactElapsed := 0 }
    peers := r.peers.map (fun peer => { peer with
      nextIndex := raftLogLastIndex log + 1
      matchIndex := 0
      missedRounds := 0
      pendingSnapshotOffset := 0
      pendingSnapshotLastIndex := 0
      catchupRound := 0
      catchupRoundElapsed := 0 }) }

def raftBecomeLeader (r : Node) : Node := settleJoint (leaderFields r)

end Kynovo.Raft
