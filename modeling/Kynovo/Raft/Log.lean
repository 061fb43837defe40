import Kynovo.Raft.Types

/-! The replicated log as a list of entries above a base, the masks of its
configuration entries, and the durability frontier that every cut lowers. -/
namespace Kynovo.Raft

/-! ## Id masks -/

/-- The binary search of the source. On an unsorted mask it can miss a member. -/
def maskSearch (ids : List Int) (id : Int) : Nat → Nat → Nat → Bool
  | 0, _, _ => false
  | fuel + 1, lo, hi =>
    if lo < hi then
      let mid := lo + (hi - 1 - lo) / 2
      let found := ids.getD mid 0
      if found = id then true
      else if found < id then maskSearch ids id fuel (mid + 1) hi
      else maskSearch ids id fuel lo mid
    else false

def raftMaskHas (ids : List Int) (id : Int) : Bool :=
  raftIdValid id && maskSearch ids id (ids.length + 1) 0 ids.length

/-- Ids sorted, refused when one is invalid or named twice. -/
def raftMakeSortedIds (ids : List Int) : Option (List Int) :=
  let copy := ids.insertionSort (· ≤ ·)
  if copy.all raftIdValid && decide copy.Nodup then some copy else none

/-! ## Log operations -/

/-- An entry as the log stores it: masks are kept for a configuration that names
old voters, for nothing else. -/
def storedEntry (entry : Entry) : Entry :=
  if entry.kind = entryConfig && !entry.cfgOld.isEmpty then entry
  else { entry with
    cfgOld := []
    cfgNew := []
    cfgLearners := [] }

def noopEntry (term : Int) : Entry := ⟨term, entryNoop, [], [], [], []⟩

def configEntry (term : Int) (cfgOld cfgNew cfgLearners : List Int) : Entry :=
  ⟨term, entryConfig, [], cfgOld, cfgNew, cfgLearners⟩

/-- Offset of an index in the list of entries. -/
def Log.offset (log : Log) (idx : Int) : Nat := (idx - log.lastIncludedIndex - 1).toNat

def Log.entryAt (log : Log) (idx : Int) : Option Entry :=
  if idx ≤ log.lastIncludedIndex then none else log.entries[log.offset idx]?

def raftLogLastIndex (log : Log) : Int := log.lastIncludedIndex + log.entries.length

def raftLogTermAt (log : Log) (idx : Int) : Int :=
  if idx ≤ log.lastIncludedIndex then log.lastIncludedTerm
  else ((log.entryAt idx).map Entry.term).getD 0

def raftLogAppend (log : Log) (entry : Entry) : Log :=
  { log with entries := log.entries ++ [storedEntry entry] }

def raftLogAppendCommands (log : Log) (term : Int) (commands : List Command) : Log :=
  { log with entries := log.entries ++
      commands.map (fun item => ⟨term, entryCommand, item.command, [], [], []⟩) }

def raftLogCompactPrefix (log : Log) (idx term : Int) : Option Log :=
  if idx < log.lastIncludedIndex || raftLogLastIndex log < idx then none
  else some { log with
    entries := log.entries.drop (idx - log.lastIncludedIndex).toNat
    lastIncludedIndex := idx
    lastIncludedTerm := term }

def raftLogTruncate (log : Log) (idx : Int) : Option Log :=
  if idx < log.lastIncludedIndex then none
  else some { log with entries := log.entries.take (idx - log.lastIncludedIndex).toNat }

/-- A chunk of the log holds mask arrays once a configuration with masks is in
it. The source keeps the arrays when that entry is cut off, which only a
configuration entry without masks could tell. -/
def Log.chunkHasMasks (log : Log) (offset : Nat) : Bool :=
  ((log.entries.drop (offset / log.chunkSize * log.chunkSize)).take log.chunkSize).any
    (fun entry => decide (entry.kind = entryConfig) && !entry.cfgOld.isEmpty)

/-- The configuration entry at an index, if the scans see one there: an entry
without masks is passed over. -/
def Log.configAt (log : Log) (idx : Int) : Option Entry :=
  match log.entryAt idx with
  | none => none
  | some entry =>
    if entry.kind = entryConfig && log.chunkHasMasks (log.offset idx) then some entry else none

/-! ## Durability frontier -/

def raftDurableClamp (r : Node) (highestValid : Int) : Node :=
  { r with
    durableIndex := min r.durableIndex highestValid
    durableConfirm := min r.durableConfirm highestValid
    persistSyncedIndex := min r.persistSyncedIndex highestValid
    deferredAppend.lastIndex := min r.deferredAppend.lastIndex highestValid }

def raftLogCut (r : Node) (idx : Int) : Node :=
  match raftLogTruncate r.log idx with
  | none => r
  | some log => raftDurableClamp { r with log := log } idx

/-! ## Peers and quorums -/

def raftFindPeer (r : Node) (id : Int) : Option Peer := r.peers.find? (fun peer => peer.id == id)

/-- Changes the first peer with an id. -/
def updatePeer (peers : List Peer) (id : Int) (change : Peer → Peer) : List Peer :=
  match peers with
  | [] => []
  | peer :: rest => if peer.id = id then change peer :: rest else peer :: updatePeer rest id change

def Peer.inConfig (peer : Peer) (oldConfigOnly : Bool) : Bool :=
  if oldConfigOnly then peer.inOldConfig else peer.inNewConfig

def Node.selfIn (r : Node) (oldConfigOnly : Bool) : Bool :=
  if oldConfigOnly then raftMaskHas r.config.old r.cfg.id else raftMaskHas r.config.new r.cfg.id

/-- Voting peers of one configuration that satisfy a test. -/
def countPeers (r : Node) (oldConfigOnly : Bool) (test : Peer → Bool) : Nat :=
  r.peers.countP (fun peer => !peer.isLearner && peer.inConfig oldConfigOnly && test peer)

def raftQuorumSizeOf (r : Node) (oldConfigOnly : Bool) : Nat :=
  (countPeers r oldConfigOnly (fun _ => true) + (r.selfIn oldConfigOnly).toNat) / 2 + 1

def raftCountVotes (r : Node) (oldConfigOnly preVote : Bool) : Nat :=
  countPeers r oldConfigOnly (fun peer => if preVote then peer.preVoteAcked else peer.vote)

def raftCountMatch (r : Node) (idx : Int) (oldConfigOnly : Bool) : Nat :=
  countPeers r oldConfigOnly (fun peer => decide (idx ≤ peer.matchIndex))

/-- Acknowledgements reach a quorum of the new configuration, and of the old one
too while the configuration is joint. -/
def quorumReached (r : Node) (count : Bool → Nat) : Bool :=
  if r.config.joint then
    decide (raftQuorumSizeOf r true ≤ count true) && decide (raftQuorumSizeOf r false ≤ count false)
  else decide (raftQuorumSizeOf r false ≤ count false)

def raftHasVoterPeer (r : Node) : Bool := r.peers.any (fun peer => !peer.isLearner)

def raftIsLearner (learners : List Int) (id : Int) : Bool := learners.contains id

/-! ## Output buffers -/

def sendMessage (r : Node) (target : Int) (rpc : Rpc) : Node :=
  { r with msgs := r.msgs ++ [⟨r.cfg.id, target, rpc⟩] }

def raftResultEmit (r : Node) (cookie : Nat) (status : ClientStatus) : Node :=
  { r with results := r.results ++
      [⟨cookie, status, if r.state = .leader then r.cfg.id else r.leaderId⟩] }

def emitResults (r : Node) (cookies : List Nat) (status : ClientStatus) : Node :=
  cookies.foldl (fun r cookie => raftResultEmit r cookie status) r

def raftConfigPendingOnlyClear (r : Node) : Node :=
  { r with config := { r.config with
      pendingOld := []
      pendingNew := []
      pendingLearners := []
      pending := false
      index := 0 } }

def raftConfigPendingClear (r : Node) : Node :=
  { raftConfigPendingOnlyClear r with catchup := Catchup.none }

def raftConfigZombieClear (r : Node) : Node :=
  if r.config.pending && 0 < r.config.index && r.config.index ≤ r.commitIndex then
    raftConfigPendingOnlyClear r
  else r

def raftFlushClientResults (r : Node) (status : ClientStatus) : Node :=
  let r := emitResults r (r.readBarriers.map ReadBarrier.cookie) status
  let r := emitResults r (r.clientPending.map ClientPending.cookie) status
  let r := emitResults r r.followerRead.pending status
  { r with
    readBarriers := []
    clientPending := []
    followerRead := { r.followerRead with
      pending := []
      frozen := 0
      waiting := false
      context := 0 } }

end Kynovo.Raft
