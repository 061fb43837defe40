import Kynovo.Raft.Run

/-! What the elections of a cluster with fixed voters rest on in one node: its
term, vote and role, the votes it has counted, the log and the snapshots it may
take the log from, and the messages that elections and logs depend on. Every call
is a sequence of moves of this part of the state, and every move keeps the
node settled: its configuration is the voters, no entry names another one, and
no term it holds is newer than its own. -/
namespace Kynovo.Raft.Stance

/-- A peer as an election sees it. -/
structure Seat where
  id : Int
  isLearner : Bool
  inNewConfig : Bool
  vote : Bool

def seat (peer : Peer) : Seat := ⟨peer.id, peer.isLearner, peer.inNewConfig, peer.vote⟩

/-- The configuration, and the changes of it that are under way. -/
structure Masks where
  old : List Int
  new : List Int
  learners : List Int
  bootstrap : List Int
  joint : Bool
  pending : Bool
  applyStale : Bool
  catchup : Bool

def masks (r : Node) : Masks where
  old := r.config.old
  new := r.config.new
  learners := r.config.learners
  bootstrap := r.config.bootstrap
  joint := r.config.joint
  pending := r.config.pending
  applyStale := r.config.applyStale
  catchup := r.catchup.active

/-- The voters, with no change under way. -/
def Masks.settled (voters : List Int) : Masks :=
  ⟨voters, voters, [], voters, false, false, false, false⟩

/-- Messages that a vote or a log is taken from. -/
def weighty (message : PeerMessage) : Bool :=
  match message.rpc with
  | .requestVote rpc => !rpc.preVote
  | .requestVoteResult result => result.voteGranted && !result.preVote
  | .appendEntries _ => true
  | .installSnapshot _ => true
  | _ => false

/-- `answer` is the candidate that a latched grant waits to be sent to. -/
structure View where
  id : Int
  term : Int
  vote : Int
  role : Role
  answer : Option Int
  seats : List Seat
  masks : Masks
  log : Log
  snapshot : SnapshotMeta
  taken : SnapshotMeta
  dirty : Bool
  received : SnapshotMeta
  installs : Bool
  said : List PeerMessage

def waiting (latch : DeferredVote) : Option Int :=
  if latch.response then some latch.target else none

def view (r : Node) : View where
  id := r.cfg.id
  term := r.currentTerm
  vote := r.votedFor
  role := r.state
  answer := waiting r.deferredVote
  seats := r.peers.map seat
  masks := masks r
  log := r.log
  snapshot := r.snapshot
  taken := r.snapshotPending
  dirty := r.snapshotPendingDirty
  received := r.snapshotRecv
  installs := r.snapshotInstallPending
  said := r.msgs.filter weighty

def lastTerm (log : Log) : Int := raftLogTermAt log (raftLogLastIndex log)

/-! ## Settled nodes -/

/-- A snapshot names no configuration, or the voters. -/
def Named (voters : List Int) (snapshot : SnapshotMeta) : Prop :=
  snapshot.cfgLearners = [] ∧
    (snapshot.cfgOld = [] ∨ (snapshot.cfgOld = voters ∧ snapshot.cfgNew = voters))

/-- No term that the node's log is made of, or may be made of, is above a bound. -/
structure Bounded (v : View) (bound : Int) : Prop where
  entries : ∀ entry ∈ v.log.entries, entry.term ≤ bound
  base : v.log.lastIncludedTerm ≤ bound
  snapshot : v.snapshot.lastTerm ≤ bound
  taken : v.taken.lastTerm ≤ bound
  received : v.received.lastTerm ≤ bound

/-- What a message of a cluster promises by itself. -/
def Fair (voters : List Int) (message : PeerMessage) : Prop :=
  match message.rpc with
  | .requestVote rpc => rpc.preVote = false → message.target ≠ message.sender ∧
      rpc.candidateId = message.sender ∧ rpc.lastLogTerm < rpc.term
  | .appendEntries rpc => message.target ≠ message.sender ∧
      ∀ entry ∈ rpc.entries, entry.kind ≠ entryConfig ∧ entry.term ≤ rpc.term
  | .installSnapshot rpc => message.target ≠ message.sender ∧ rpc.snapshotLastTerm ≤ rpc.term ∧
      Named voters ⟨rpc.snapshotLastIndex, rpc.snapshotLastTerm, rpc.snapshotDataSize,
        rpc.snapshotCfgOld, rpc.snapshotCfgNew, rpc.snapshotCfgLearners⟩
  | _ => True

/-- The peers are the other voters. -/
structure Seated (voters : List Int) (id : Int) (seats : List Seat) : Prop where
  others : (id :: seats.map Seat.id).Perm voters
  voting : ∀ seat ∈ seats, seat.isLearner = false ∧ seat.inNewConfig = true

structure Settled (voters : List Int) (v : View) : Prop where
  masks : v.masks = Masks.settled voters
  seated : Seated voters v.id v.seats
  plain : ∀ entry ∈ v.log.entries, entry.kind ≠ entryConfig
  snapshot : Named voters v.snapshot
  taken : Named voters v.taken
  received : Named voters v.received
  started : 0 ≤ v.term
  bounded : Bounded v v.term
  standing : v.role = .candidate → v.vote = v.id ∧ 0 < v.term ∧ Bounded v (v.term - 1)
  leading : v.role = .leader → v.vote = v.id
  answer : ∀ candidate, v.answer = some candidate → v.vote = candidate ∧ 0 < candidate
  fair : ∀ message ∈ v.said, message.sender = v.id ∧ Fair voters message

/-! ## Moves -/

/-- Votes that were counted may be forgotten, none are made up. -/
def FewerVotes (old new : List Seat) : Prop :=
  ∀ seat ∈ new, seat.vote = true → ∃ was ∈ old, was.id = seat.id ∧ was.vote = true

/-- What may be given up at any time. -/
structure Eases (voters : List Int) (v v' : View) : Prop where
  id : v'.id = v.id
  term : v'.term = v.term
  vote : v'.vote = v.vote
  role : v'.role = v.role ∨ v'.role = .follower
  answer : v'.answer = v.answer ∨ v'.answer = none
  seated : Seated voters v'.id v'.seats
  seats : FewerVotes v.seats v'.seats
  masks : v'.masks = v.masks
  log : v'.log = v.log
  snapshot : v'.snapshot = v.snapshot
  taken : Named voters v'.taken ∧ v'.taken.lastIndex = v.taken.lastIndex ∧
    v'.taken.lastTerm = v.taken.lastTerm
  dirty : v'.dirty = true → v.dirty = true
  received : Named voters v'.received ∧ v'.received.lastTerm = v.received.lastTerm
  installs : v'.installs = true → v.installs = true
  said : ∀ message ∈ v'.said, message ∈ v.said

/-- The log after the entries of a message are put in. -/
def Spliced (log : Log) (rpc : AppendEntries) (spliced : Log) : Prop :=
  prevMismatch log rpc = none ∧ ∃ cutTo new,
    scanEntries log (rpc.prevLogIndex + 1) rpc.entries = .splice cutTo new ∧
      spliced = appendNew ((cutTo.bind (raftLogTruncate log)).getD log) new

/-- The log after a received snapshot is installed. -/
def installedLog (log : Log) (received : SnapshotMeta) : Log :=
  if received.lastIndex ≤ raftLogLastIndex log ∧
      raftLogTermAt log received.lastIndex = received.lastTerm then
    (raftLogCompactPrefix log received.lastIndex received.lastTerm).getD
      ⟨[], received.lastIndex, received.lastTerm, log.chunkSize⟩
  else ⟨[], received.lastIndex, received.lastTerm, log.chunkSize⟩

/-- The entries of a message are a piece of the log, with the term of the entry
before them. -/
def Quotes (log : Log) (rpc : AppendEntries) : Prop :=
  log.lastIncludedIndex ≤ rpc.prevLogIndex ∧
    rpc.prevLogTerm = raftLogTermAt log rpc.prevLogIndex ∧
      ∃ count, rpc.entries = (log.entries.drop (log.offset (rpc.prevLogIndex + 1))).take count

/-- What the sender's state says for a message. -/
def Vouched (saves : Prop) (v : View) (message : PeerMessage) : Prop :=
  match message.rpc with
  | .requestVote rpc => v.role = .candidate ∧ rpc.term = v.term
  | .requestVoteResult result => result.term = v.term ∧ v.answer = some message.target
  | .appendEntries rpc => v.role = .leader ∧ rpc.term = v.term ∧ Quotes v.log rpc
  | .installSnapshot rpc => saves ∧ v.role = .leader ∧ rpc.term = v.term
  | _ => True

def clearVote (seat : Seat) : Seat := { seat with vote := false }

/-- Counts the vote of a peer. -/
def markSeat (seats : List Seat) (id : Int) : List Seat :=
  match seats with
  | [] => []
  | seat :: rest =>
    if seat.id = id then { seat with vote := true } :: rest else seat :: markSeat rest id

/-- What a node may do at once. Only where it `saves` does it take snapshots of its own. -/
inductive Move (voters : List Int) (saves : Prop) (heard : PeerMessage → Prop) (v : View) :
    View → Prop where
  | ease {v' : View} (eases : Eases voters v v') : Move voters saves heard v v'
  | newer (term : Int) (above : v.term < term) :
      Move voters saves heard v { v with
        term
        vote := 0
        role := .follower
        answer := none }
  /-- out of office without a newer term -/
  | leave (leads : v.role = .leader) (ends : v.term ≤ lastTerm v.log) :
      Move voters saves heard v { v with
        vote := 0
        role := .follower
        answer := none
        dirty := false
        installs := false }
  | stand :
      Move voters saves heard v { v with
        term := v.term + 1
        vote := v.id
        role := .candidate
        answer := none
        seats := v.seats.map clearVote }
  | cast (message : PeerMessage) (rpc : RequestVote) (received : heard message)
      (shape : message.rpc = .requestVote rpc) (fair : Fair voters message)
      (real : rpc.preVote = false) (now : rpc.term = v.term) (valid : 0 < rpc.candidateId)
      (free : v.vote = 0 ∨ v.vote = rpc.candidateId)
      (upToDate : lastTerm v.log ≤ rpc.lastLogTerm) :
      Move voters saves heard v { v with
        vote := rpc.candidateId
        answer := some message.sender }
  | count (message : PeerMessage) (result : RequestVoteResult) (received : heard message)
      (shape : message.rpc = .requestVoteResult result) (granted : result.voteGranted = true)
      (real : result.preVote = false) (now : result.term = v.term) (stands : v.role = .candidate) :
      Move voters saves heard v { v with seats := markSeat v.seats message.sender }
  | lead (stands : v.role = .candidate)
      (won : voters.length / 2 + 1 ≤ 1 + v.seats.countP Seat.vote) :
      Move voters saves heard v { v with
        role := .leader
        log := raftLogAppend v.log (noopEntry v.term) }
  | append (new : List Entry) (leads : v.role = .leader)
      (own : ∀ entry ∈ new, entry.term = v.term ∧ entry.kind ≠ entryConfig ∧
        storedEntry entry = entry) :
      Move voters saves heard v { v with log := { v.log with entries := v.log.entries ++ new } }
  | splice (message : PeerMessage) (rpc : AppendEntries) (received : heard message)
      (shape : message.rpc = .appendEntries rpc) (fair : Fair voters message)
      (now : rpc.term = v.term) (follows : v.role = .follower) (log : Log)
      (spliced : Spliced v.log rpc log) : Move voters saves heard v { v with log }
  | receive (message : PeerMessage) (rpc : InstallSnapshot) (taken : heard message)
      (shape : message.rpc = .installSnapshot rpc) (fair : Fair voters message)
      (now : rpc.term = v.term) (follows : v.role = .follower) (received : SnapshotMeta)
      (installs : Bool) (named : Named voters received) (bounded : received.lastTerm ≤ v.term) :
      Move voters saves heard v { v with
        received
        installs }
  | install (installs : v.installs = true) (seats : List Seat)
      (seated : Seated voters v.id seats) (fresh : ∀ seat ∈ seats, seat.vote = false) :
      Move voters saves heard v { v with
        log := installedLog v.log v.received
        snapshot := v.received
        received := .zero
        installs := false
        seats }
  | take (idx : Int) (allowed : saves) (steady : v.role ≠ .candidate) :
      Move voters saves heard v { v with
        taken := ⟨idx, raftLogTermAt v.log idx, 0, voters, voters, []⟩
        dirty := true }
  | compact (log : Log) (dirty : v.dirty = true)
      (compacted : raftLogCompactPrefix v.log v.taken.lastIndex v.taken.lastTerm = some log) :
      Move voters saves heard v { v with
        log
        snapshot := v.taken
        dirty := false
        taken := { v.taken with
          cfgOld := []
          cfgNew := []
          cfgLearners := [] } }
  | say (messages : List PeerMessage)
      (said : ∀ message ∈ messages,
        message.sender = v.id ∧ Fair voters message ∧ Vouched saves v message) :
      Move voters saves heard v { v with said := v.said ++ messages }

def Moves (voters : List Int) (saves : Prop) (heard : PeerMessage → Prop) : View → View → Prop :=
  Relation.ReflTransGen (Move voters saves heard)


/-! ## A settled node stays settled -/

section
variable {voters : List Int} {saves : Prop} {heard : PeerMessage → Prop} {v v' : View} {log log' : Log}

theorem storedEntry_term (entry : Entry) : (storedEntry entry).term = entry.term := by
  unfold storedEntry
  split
  · rfl
  · rfl

theorem storedEntry_kind (entry : Entry) : (storedEntry entry).kind = entry.kind := by
  unfold storedEntry
  split
  · rfl
  · rfl

/-- A test of entries that the stored form passes too. -/
structure Stable (test : Entry → Prop) : Prop where
  stored : ∀ entry, test entry → test (storedEntry entry)

theorem stable_term (bound : Int) : Stable (fun entry => entry.term ≤ bound) :=
  ⟨fun entry small => (storedEntry_term entry).trans_le small⟩

theorem stable_plain : Stable (fun entry => entry.kind ≠ entryConfig) :=
  ⟨fun entry plain => by rwa [storedEntry_kind]⟩

theorem mem_of_scanned {idx : Int} {entries new : List Entry} {cutTo : Option Int}
    (scanned : scanEntries log idx entries = .splice cutTo new) : ∀ entry ∈ new, entry ∈ entries := by
  induction entries generalizing idx with
  | nil => cases scanned
  | cons first rest ih =>
    unfold scanEntries at scanned
    split at scanned
    · cases scanned
    · split at scanned
      · exact fun entry isNew => List.mem_cons_of_mem _ (ih scanned entry isNew)
      · split at scanned
        · split at scanned
          · cases scanned
          · cases scanned
            exact fun _ isNew => isNew
        · cases scanned
          exact fun _ isNew => isNew

theorem truncated_entries {idx : Int} (cut : raftLogTruncate log idx = some log') :
    (∀ entry ∈ log'.entries, entry ∈ log.entries) ∧
      log'.lastIncludedTerm = log.lastIncludedTerm := by
  unfold raftLogTruncate at cut
  split at cut
  · cases cut
  · cases cut
    exact ⟨fun _ kept => List.mem_of_mem_take kept, rfl⟩

theorem compacted_entries {idx term : Int} (cut : raftLogCompactPrefix log idx term = some log') :
    (∀ entry ∈ log'.entries, entry ∈ log.entries) ∧ log'.lastIncludedTerm = term := by
  unfold raftLogCompactPrefix at cut
  split at cut
  · cases cut
  · cases cut
    exact ⟨fun _ kept => List.mem_of_mem_drop kept, rfl⟩

/-- The entries of a spliced log are old ones and those of the message, in their stored
form. -/
theorem Spliced.entries {rpc : AppendEntries} (spliced : Spliced log rpc log')
    {test : Entry → Prop} (stable : Stable test) (old : ∀ entry ∈ log.entries, test entry)
    (new : ∀ entry ∈ rpc.entries, test entry) :
    (∀ entry ∈ log'.entries, test entry) ∧ log'.lastIncludedTerm = log.lastIncludedTerm := by
  obtain ⟨-, cutTo, added, scanned, rfl⟩ := spliced
  have kept : (∀ entry ∈ ((cutTo.bind (raftLogTruncate log)).getD log).entries,
      entry ∈ log.entries) ∧
      ((cutTo.bind (raftLogTruncate log)).getD log).lastIncludedTerm = log.lastIncludedTerm := by
    cases cut : cutTo.bind (raftLogTruncate log) with
    | none => exact ⟨fun _ isOld => isOld, rfl⟩
    | some shorter =>
      obtain ⟨idx, -, made⟩ := Option.bind_eq_some_iff.mp cut
      exact truncated_entries made
  refine ⟨fun entry held => ?_, kept.2⟩
  simp only [appendNew, List.mem_append, List.mem_map] at held
  rcases held with isOld | ⟨source, isNew, rfl⟩
  · exact old entry (kept.1 entry isOld)
  · refine stable.stored source (new source (mem_of_scanned scanned source ?_))
    rcases isNew with first | later
    · exact List.mem_of_mem_take first
    · exact List.mem_of_mem_drop ((List.takeWhile_sublist _).subset later)

theorem installedLog_entries (log : Log) (received : SnapshotMeta) :
    (∀ entry ∈ (installedLog log received).entries, entry ∈ log.entries) ∧
      (installedLog log received).lastIncludedTerm = received.lastTerm := by
  unfold installedLog
  split
  · cases cut : raftLogCompactPrefix log received.lastIndex received.lastTerm with
    | none => exact ⟨nofun, rfl⟩
    | some kept => exact compacted_entries cut
  · exact ⟨nofun, rfl⟩

theorem Bounded.mono {low high : Int} (bounded : Bounded v low) (above : low ≤ high) :
    Bounded v high where
  entries := fun entry held => (bounded.entries entry held).trans above
  base := bounded.base.trans above
  snapshot := bounded.snapshot.trans above
  taken := bounded.taken.trans above
  received := bounded.received.trans above

/-- The terms of a log that are read anywhere are bounded with its entries. -/
theorem termAt_le {bound : Int} (entries : ∀ entry ∈ log.entries, entry.term ≤ bound)
    (base : log.lastIncludedTerm ≤ bound) (started : 0 ≤ bound) (idx : Int) :
    raftLogTermAt log idx ≤ bound := by
  unfold raftLogTermAt
  split
  · exact base
  · cases found : log.entryAt idx with
    | none => exact started
    | some entry =>
      unfold Log.entryAt at found
      split at found
      · cases found
      · exact entries entry (List.mem_of_getElem? found)

theorem Bounded.termAt {bound : Int} (bounded : Bounded v bound) (started : 0 ≤ bound) (idx : Int) :
    raftLogTermAt v.log idx ≤ bound := termAt_le bounded.entries bounded.base started idx

theorem named_zero (voters : List Int) : Named voters .zero := ⟨rfl, .inl rfl⟩

theorem named_voters {snapshot : SnapshotMeta} (old : snapshot.cfgOld = voters)
    (new : snapshot.cfgNew = voters) (learners : snapshot.cfgLearners = []) : Named voters snapshot :=
  ⟨learners, .inr ⟨old, new⟩⟩

/-- The part of a bounded state that a change of the log alone concerns. -/
theorem Bounded.relog {bound : Int} (bounded : Bounded v bound)
    (entries : ∀ entry ∈ log.entries, entry.term ≤ bound) (base : log.lastIncludedTerm ≤ bound) :
    Bounded { v with log } bound where
  entries := entries
  base := base
  snapshot := bounded.snapshot
  taken := bounded.taken
  received := bounded.received

theorem Seated.clear {id : Int} {seats : List Seat} (seated : Seated voters id seats) :
    Seated voters id (seats.map clearVote) where
  others := by
    rw [List.map_map]
    exact seated.others
  voting := fun seat held => by
    obtain ⟨was, isOld, rfl⟩ := List.mem_map.mp held
    exact seated.voting was isOld

theorem markSeat_ids (seats : List Seat) (id : Int) :
    (markSeat seats id).map Seat.id = seats.map Seat.id := by
  induction seats with
  | nil => rfl
  | cons seat rest ih =>
    unfold markSeat
    split
    · rfl
    · rw [List.map_cons, ih, List.map_cons]

theorem mem_markSeat {seats : List Seat} {id : Int} {seat : Seat} (held : seat ∈ markSeat seats id) :
    ∃ was ∈ seats, was.id = seat.id ∧ was.isLearner = seat.isLearner ∧
      was.inNewConfig = seat.inNewConfig ∧ (seat.vote = true → was.vote = true ∨ seat.id = id) := by
  induction seats with
  | nil => cases held
  | cons first rest ih =>
    unfold markSeat at held
    split at held
    · rename_i named
      rcases List.mem_cons.mp held with rfl | held
      · exact ⟨first, List.mem_cons_self, rfl, rfl, rfl, fun _ => .inr named⟩
      · exact ⟨seat, List.mem_cons_of_mem _ held, rfl, rfl, rfl, .inl⟩
    · rcases List.mem_cons.mp held with rfl | held
      · exact ⟨seat, List.mem_cons_self, rfl, rfl, rfl, .inl⟩
      · obtain ⟨was, isOld, rest⟩ := ih held
        exact ⟨was, List.mem_cons_of_mem _ isOld, rest⟩

theorem Seated.mark {id : Int} {seats : List Seat} (seated : Seated voters id seats) (sender : Int) :
    Seated voters id (markSeat seats sender) where
  others := by
    rw [markSeat_ids]
    exact seated.others
  voting := fun seat held => by
    obtain ⟨was, isOld, -, learner, voting, -⟩ := mem_markSeat held
    rw [← learner, ← voting]
    exact seated.voting was isOld

theorem Eases.bounded {bound : Int} (eases : Eases voters v v') (bounded : Bounded v bound) :
    Bounded v' bound where
  entries := eases.log ▸ bounded.entries
  base := eases.log ▸ bounded.base
  snapshot := eases.snapshot ▸ bounded.snapshot
  taken := eases.taken.2.2 ▸ bounded.taken
  received := eases.received.2 ▸ bounded.received

theorem Eases.settled (eases : Eases voters v v') (settled : Settled voters v) : Settled voters v' where
  masks := eases.masks.trans settled.masks
  seated := eases.seated
  plain := eases.log ▸ settled.plain
  snapshot := eases.snapshot ▸ settled.snapshot
  taken := eases.taken.1
  received := eases.received.1
  started := eases.term ▸ settled.started
  bounded := eases.term ▸ eases.bounded settled.bounded
  standing := fun stands => by
    have stood : v.role = .candidate := by
      rcases eases.role with same | follows
      · rw [← same]
        exact stands
      · rw [follows] at stands
        cases stands
    obtain ⟨own, positive, bounded⟩ := settled.standing stood
    rw [eases.vote, eases.id, eases.term]
    exact ⟨own, positive, eases.bounded bounded⟩
  leading := fun leads => by
    have led : v.role = .leader := by
      rcases eases.role with same | follows
      · rw [← same]
        exact leads
      · rw [follows] at leads
        cases leads
    rw [eases.vote, eases.id]
    exact settled.leading led
  answer := fun candidate waits => by
    rcases eases.answer with same | gone
    · rw [eases.vote]
      exact settled.answer candidate (same ▸ waits)
    · rw [gone] at waits
      cases waits
  fair := fun message held => by
    rw [eases.id]
    exact settled.fair message (eases.said message held)

/-- A change of the log alone, by entries that are bounded. -/
theorem Settled.relog (settled : Settled voters v)
    (plain : ∀ entry ∈ log.entries, entry.kind ≠ entryConfig)
    (entries : ∀ entry ∈ log.entries, entry.term ≤ v.term) (base : log.lastIncludedTerm ≤ v.term)
    (steady : v.role ≠ .candidate) : Settled voters { v with log } where
  masks := settled.masks
  seated := settled.seated
  plain := plain
  snapshot := settled.snapshot
  taken := settled.taken
  received := settled.received
  started := settled.started
  bounded := settled.bounded.relog entries base
  standing := fun stands => absurd stands steady
  leading := settled.leading
  answer := settled.answer
  fair := settled.fair

/-- A newer term, with no vote and no office in it. -/
theorem Settled.newer (settled : Settled voters v) {term : Int} (above : v.term ≤ term) :
    Settled voters { v with
      term
      vote := 0
      role := .follower
      answer := none } where
  masks := settled.masks
  seated := settled.seated
  plain := settled.plain
  snapshot := settled.snapshot
  taken := settled.taken
  received := settled.received
  started := settled.started.trans above
  bounded := { settled.bounded.mono above with }
  standing := nofun
  leading := nofun
  answer := nofun
  fair := settled.fair

theorem Settled.stand (settled : Settled voters v) :
    Settled voters { v with
      term := v.term + 1
      vote := v.id
      role := .candidate
      answer := none
      seats := v.seats.map clearVote } where
  masks := settled.masks
  seated := settled.seated.clear
  plain := settled.plain
  snapshot := settled.snapshot
  taken := settled.taken
  received := settled.received
  started := by have := settled.started; dsimp only; omega
  bounded := { settled.bounded.mono (by omega : v.term ≤ v.term + 1) with }
  standing := fun _ => ⟨rfl, by have := settled.started; dsimp only; omega,
    { settled.bounded.mono (by omega : v.term ≤ v.term + 1 - 1) with }⟩
  leading := nofun
  answer := nofun
  fair := settled.fair

/-- A vote goes to the candidate of a message, or to the one that has it. -/
theorem Settled.cast (settled : Settled voters v) {candidate target : Int} (valid : 0 < candidate)
    (same : candidate = target) (free : v.vote = 0 ∨ v.vote = candidate) (own : v.id ≠ 0) :
    Settled voters { v with
      vote := candidate
      answer := some target } where
  masks := settled.masks
  seated := settled.seated
  plain := settled.plain
  snapshot := settled.snapshot
  taken := settled.taken
  received := settled.received
  started := settled.started
  bounded := { settled.bounded with }
  standing := fun stands => by
    obtain ⟨mine, positive, bounded⟩ := settled.standing stands
    have kept : v.vote = candidate := free.resolve_left (by rw [mine]; exact own)
    exact ⟨kept.symm.trans mine, positive, { bounded with }⟩
  leading := fun leads => by
    have mine := settled.leading leads
    have kept : v.vote = candidate := free.resolve_left (by rw [mine]; exact own)
    exact kept.symm.trans mine
  answer := fun waiting waits => by
    cases waits
    exact ⟨same, same ▸ valid⟩
  fair := settled.fair

theorem Settled.lead (settled : Settled voters v) (stands : v.role = .candidate) :
    Settled voters { v with
      role := .leader
      log := raftLogAppend v.log (noopEntry v.term) } where
  masks := settled.masks
  seated := settled.seated
  plain := fun entry held => by
    simp only [raftLogAppend, List.mem_append, List.mem_singleton] at held
    rcases held with old | rfl
    · exact settled.plain entry old
    · rw [storedEntry_kind]
      exact nofun
  snapshot := settled.snapshot
  taken := settled.taken
  received := settled.received
  started := settled.started
  bounded := {
    settled.bounded with
    entries := fun entry held => by
      simp only [raftLogAppend, List.mem_append, List.mem_singleton] at held
      rcases held with old | rfl
      · exact settled.bounded.entries entry old
      · rw [storedEntry_term]
        exact le_refl _ }
  standing := nofun
  leading := fun _ => (settled.standing stands).1
  answer := settled.answer
  fair := settled.fair

/-- A snapshot is received by a follower of the leader that sends it. -/
theorem Settled.receive (settled : Settled voters v) (follows : v.role = .follower)
    {received : SnapshotMeta} (named : Named voters received) (bounded : received.lastTerm ≤ v.term)
    (installs : Bool) : Settled voters { v with
      received
      installs } where
  masks := settled.masks
  seated := settled.seated
  plain := settled.plain
  snapshot := settled.snapshot
  taken := settled.taken
  received := named
  started := settled.started
  bounded := { settled.bounded with received := bounded }
  standing := fun stands => by
    have stood : v.role = .candidate := stands
    rw [follows] at stood
    cases stood
  leading := settled.leading
  answer := settled.answer
  fair := settled.fair

theorem Bounded.install {bound : Int} (bounded : Bounded v bound) (started : 0 ≤ bound)
    (seats : List Seat) : Bounded { v with
      log := installedLog v.log v.received
      snapshot := v.received
      received := .zero
      installs := false
      seats } bound where
  entries := fun entry held =>
    bounded.entries entry ((installedLog_entries v.log v.received).1 entry held)
  base := (installedLog_entries v.log v.received).2.trans_le bounded.received
  snapshot := bounded.received
  taken := bounded.taken
  received := started

theorem Settled.install (settled : Settled voters v) {seats : List Seat}
    (seated : Seated voters v.id seats) : Settled voters { v with
      log := installedLog v.log v.received
      snapshot := v.received
      received := .zero
      installs := false
      seats } where
  masks := settled.masks
  seated := seated
  plain := fun entry held =>
    settled.plain entry ((installedLog_entries v.log v.received).1 entry held)
  snapshot := settled.received
  taken := settled.taken
  received := named_zero voters
  started := settled.started
  bounded := settled.bounded.install settled.started seats
  standing := fun stands => by
    obtain ⟨mine, positive, bounded⟩ := settled.standing stands
    exact ⟨mine, positive, bounded.install (by omega) seats⟩
  leading := settled.leading
  answer := settled.answer
  fair := settled.fair

theorem Settled.take (settled : Settled voters v) (idx : Int) (steady : v.role ≠ .candidate) :
    Settled voters { v with
      taken := ⟨idx, raftLogTermAt v.log idx, 0, voters, voters, []⟩
      dirty := true } where
  masks := settled.masks
  seated := settled.seated
  plain := settled.plain
  snapshot := settled.snapshot
  taken := named_voters rfl rfl rfl
  received := settled.received
  started := settled.started
  bounded := { settled.bounded with taken := settled.bounded.termAt settled.started idx }
  standing := fun stands => absurd stands steady
  leading := settled.leading
  answer := settled.answer
  fair := settled.fair

theorem Bounded.compact {bound : Int} (bounded : Bounded v bound)
    (compacted : raftLogCompactPrefix v.log v.taken.lastIndex v.taken.lastTerm = some log) :
    Bounded { v with
      log
      snapshot := v.taken
      dirty := false
      taken := { v.taken with
        cfgOld := []
        cfgNew := []
        cfgLearners := [] } } bound where
  entries := fun entry held => bounded.entries entry ((compacted_entries compacted).1 entry held)
  base := (compacted_entries compacted).2.trans_le bounded.taken
  snapshot := bounded.taken
  taken := bounded.taken
  received := bounded.received

theorem Settled.compact (settled : Settled voters v)
    (compacted : raftLogCompactPrefix v.log v.taken.lastIndex v.taken.lastTerm = some log) :
    Settled voters { v with
      log
      snapshot := v.taken
      dirty := false
      taken := { v.taken with
        cfgOld := []
        cfgNew := []
        cfgLearners := [] } } where
  masks := settled.masks
  seated := settled.seated
  plain := fun entry held => settled.plain entry ((compacted_entries compacted).1 entry held)
  snapshot := settled.taken
  taken := ⟨rfl, .inl rfl⟩
  received := settled.received
  started := settled.started
  bounded := settled.bounded.compact compacted
  standing := fun stands => by
    obtain ⟨mine, positive, bounded⟩ := settled.standing stands
    exact ⟨mine, positive, bounded.compact compacted⟩
  leading := settled.leading
  answer := settled.answer
  fair := settled.fair

/-- Every move of a settled node leaves it settled. -/
theorem Move.settled (move : Move voters saves heard v v') (settled : Settled voters v) (own : v.id ≠ 0) :
    Settled voters v' := by
  cases move with
  | ease eases => exact eases.settled settled
  | newer term above => exact settled.newer above.le
  | leave leads ends =>
    have left := settled.newer (le_refl v.term)
    exact { left with
      bounded := { left.bounded with }
      standing := nofun
      leading := nofun
      answer := nofun }
  | stand => exact settled.stand
  | cast message rpc _ shape fair real _ valid free _ =>
    simp only [Fair, shape] at fair
    exact settled.cast valid (fair real).2.1 free own
  | count message result _ _ _ _ _ stands =>
    exact { settled with
      seated := settled.seated.mark message.sender
      bounded := { settled.bounded with }
      standing := fun stands =>
        ⟨(settled.standing stands).1, (settled.standing stands).2.1,
          { (settled.standing stands).2.2 with }⟩ }
  | lead stands _ => exact settled.lead stands
  | append new leads own =>
    refine settled.relog (fun entry held => ?_) (fun entry held => ?_) settled.bounded.base
      (by rw [leads]; exact nofun)
    · rcases List.mem_append.mp held with old | isNew
      · exact settled.plain entry old
      · exact (own entry isNew).2.1
    · rcases List.mem_append.mp held with old | isNew
      · exact settled.bounded.entries entry old
      · exact (own entry isNew).1.le
  | splice message rpc _ shape fair now follows log spliced =>
    simp only [Fair, shape] at fair
    have plain := spliced.entries stable_plain settled.plain (fun entry held => (fair.2 entry held).1)
    have bounded := spliced.entries (stable_term v.term) settled.bounded.entries
      (fun entry held => (fair.2 entry held).2.trans now.le)
    refine settled.relog plain.1 bounded.1 (bounded.2.trans_le settled.bounded.base) ?_
    rw [follows]
    exact nofun
  | receive message rpc _ _ _ _ follows received installs named bounded =>
    exact settled.receive follows named bounded installs
  | install _ seats seated _ => exact settled.install seated
  | take idx _ steady => exact settled.take idx steady
  | compact log _ compacted => exact settled.compact compacted
  | say messages said =>
    exact { settled with
      bounded := { settled.bounded with }
      standing := fun stands =>
        ⟨(settled.standing stands).1, (settled.standing stands).2.1,
          { (settled.standing stands).2.2 with }⟩
      fair := fun message held => by
        rcases List.mem_append.mp held with old | isNew
        · exact settled.fair message old
        · exact ⟨(said message isNew).1, (said message isNew).2.1⟩ }

theorem Move.id (move : Move voters saves heard v v') : v'.id = v.id := by
  cases move with
  | ease eases => exact eases.id
  | _ => rfl

theorem Moves.settled (moves : Moves voters saves heard v v') (settled : Settled voters v)
    (own : v.id ≠ 0) : Settled voters v' ∧ v'.id = v.id := by
  induction moves with
  | refl => exact ⟨settled, rfl⟩
  | tail _ move ih => exact ⟨move.settled ih.1 (by rw [ih.2]; exact own), move.id.trans ih.2⟩

end

end Kynovo.Raft.Stance
