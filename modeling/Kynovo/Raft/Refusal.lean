import Kynovo.Raft.Frontier

/-! Messages that are refused. The contract of `raft_recvfrom_peer` is that a
refused message changes nothing. The handlers check as they go: the term of a
message is adopted and its sender followed before the entries are looked at, and
entries go into the log before the ones behind them are checked. -/
namespace Kynovo.Raft.Refusal
open Kynovo.Raft.Frame
open Kynovo.Raft.Frontier

/-- Log, term, vote, commit index, role and configuration are the same; learners
may be listed in another order. -/
structure Unchanged (r r' : Node) : Prop where
  log : r'.log = r.log
  currentTerm : r'.currentTerm = r.currentTerm
  votedFor : r'.votedFor = r.votedFor
  commitIndex : r'.commitIndex = r.commitIndex
  state : r'.state = r.state
  old : r'.config.old = r.config.old
  new : r'.config.new = r.config.new
  joint : r'.config.joint = r.config.joint
  learners : r'.config.learners.Perm r.config.learners

theorem Unchanged.refl (r : Node) : Unchanged r r := ⟨rfl, rfl, rfl, rfl, rfl, rfl, rfl, rfl, .refl _⟩

/-- Nothing moves when this node hears from a leader of the term: the term is not
newer and the node is a follower already. -/
def Settled (r : Node) (term : Int) : Prop := term ≤ r.currentTerm ∧ r.state = .follower

instance (r : Node) (term : Int) : Decidable (Settled r term) := inferInstanceAs (Decidable (_ ∧ _))

variable {r r' : Node}

/-! ## Terms -/

theorem adoptTerm_same {term : Int} (known : term ≤ r.currentTerm) (leaderId : Int) :
    adoptTerm r term leaderId = r := if_neg (not_lt.mpr known)

theorem stepDown_fields {term : Int} (inside : termOutOfRange term = false) (newLeaderId : Int) :
    (raftStepDown r term newLeaderId).currentTerm = term ∧
      (raftStepDown r term newLeaderId).state = .follower ∧
      (raftStepDown r term newLeaderId).log = r.log := by
  have emitted : ∀ (r : Node) (cookies : List Nat) (status : ClientStatus),
      (emitResults r cookies status).currentTerm = r.currentTerm ∧
        (emitResults r cookies status).state = r.state ∧
        (emitResults r cookies status).log = r.log := by
    intro r cookies status
    induction cookies generalizing r with
    | nil => exact ⟨rfl, rfl, rfl⟩
    | cons cookie rest ih => exact ih (raftResultEmit r cookie status)
  have flushed : ∀ (r : Node) (status : ClientStatus),
      (raftFlushClientResults r status).currentTerm = r.currentTerm ∧
        (raftFlushClientResults r status).state = r.state ∧
        (raftFlushClientResults r status).log = r.log := by
    intro r status
    unfold raftFlushClientResults
    extract_lets barriers clients reads
    obtain ⟨term1, state1, log1⟩ := emitted r (r.readBarriers.map ReadBarrier.cookie) status
    obtain ⟨term2, state2, log2⟩ := emitted barriers (barriers.clientPending.map ClientPending.cookie)
      status
    obtain ⟨term3, state3, log3⟩ := emitted clients clients.followerRead.pending status
    exact ⟨term3.trans (term2.trans term1), state3.trans (state2.trans state1),
      log3.trans (log2.trans log1)⟩
  unfold raftStepDown
  rw [if_neg (by simp [inside])]
  dsimp only
  obtain ⟨term1, state1, log1⟩ := emitted
    { raftFlushClientResults (stepDownFields r term newLeaderId) .redirect with readBarrierGen := 0 }
    ([r.transfer.cookie, if r.catchup.active then r.catchup.cookie else 0].filter (· ≠ 0)) .redirect
  obtain ⟨term2, state2, log2⟩ := flushed (stepDownFields r term newLeaderId) .redirect
  exact ⟨term1.trans term2, state1.trans state2, log1.trans log2⟩

/-- A newer term shows after the call. -/
theorem adoptTerm_newer {term : Int} (inside : termOutOfRange term = false)
    (newer : r.currentTerm < term) (leaderId : Int) :
    (adoptTerm r term leaderId).currentTerm = term ∧
      (adoptTerm r term leaderId).state = .follower := by
  unfold adoptTerm
  rw [if_pos newer]
  obtain ⟨current, state, -⟩ := @stepDown_fields r term inside leaderId
  exact ⟨current, state⟩

theorem adoptTerm_log (r : Node) (term leaderId : Int) : (adoptTerm r term leaderId).log = r.log := by
  unfold adoptTerm
  split
  · by_cases inside : termOutOfRange term = false
    · exact (stepDown_fields inside leaderId).2.2
    · unfold raftStepDown
      rw [if_pos (by simpa using inside)]
  · rfl

/-- The node after a message of a leader that it takes. -/
def followed (r : Node) (term leaderId : Int) : Node := followLeader (adoptTerm r term leaderId) leaderId

/-- What follows the leader and then changes neither term, role nor log has changed
nothing exactly when the node was settled and the rest is as it was. -/
theorem unchanged_followed_iff {term leaderId : Int} (inside : termOutOfRange term = false)
    (kept : Unchanged (followed r term leaderId) r') :
    Unchanged r r' ↔ Settled r term := by
  constructor
  · intro same
    have known : term ≤ r.currentTerm := by
      by_contra newer
      have adopted := (@adoptTerm_newer r term inside (by omega) leaderId).1
      have shown : r'.currentTerm = (adoptTerm r term leaderId).currentTerm := kept.currentTerm
      have stays := same.currentTerm
      omega
    refine ⟨known, ?_⟩
    have follower : r'.state = .follower := kept.state
    rw [← same.state, follower]
  · rintro ⟨known, follower⟩
    unfold followed at kept
    rw [adoptTerm_same known] at kept
    exact ⟨kept.log, kept.currentTerm, kept.votedFor, kept.commitIndex,
      kept.state.trans follower.symm, kept.old, kept.new, kept.joint, kept.learners⟩

/-! ## Configurations that cannot be put in force -/

theorem raftMakeSortedIds_perm {ids sorted : List Int} (made : raftMakeSortedIds ids = some sorted) :
    sorted.Perm ids := by
  unfold raftMakeSortedIds at made
  dsimp only at made
  split at made
  · cases made
    exact List.perm_insertionSort _ ids
  · cases made

/-- A refused configuration leaves the one in force, and the log as it is. -/
theorem raftApplyConfigFromLog_refused (r : Node) (refused : (raftApplyConfigFromLog r).2 ≠ 0) :
    (raftApplyConfigFromLog r).2 = -1 ∧ Unchanged r (raftApplyConfigFromLog r).1 := by
  have masks : ∀ old new learners, (raftApplyConfigMasks r old new learners).2 ≠ 0 →
      (raftApplyConfigMasks r old new learners).2 = -1 ∧
        Unchanged r (raftApplyConfigMasks r old new learners).1 := by
    intro old new learners
    unfold raftApplyConfigMasks
    split
    · exact fun _ => ⟨rfl, rfl, rfl, rfl, rfl, rfl, rfl, rfl, rfl, .refl _⟩
    · rename_i saved made
      split
      · exact fun _ => ⟨rfl, rfl, rfl, rfl, rfl, rfl, rfl, rfl, rfl, raftMakeSortedIds_perm made⟩
      · exact fun other => absurd rfl other
  revert refused
  unfold raftApplyConfigFromLog
  split
  · exact masks _ _ _
  · obtain ⟨old, new, learners⟩ := baseMasks r
    dsimp only
    split
    · exact fun other => absurd rfl other
    · exact masks old new learners

/-- The configuration after an accepted message is refused. -/
def configRefused (r : Node) (rpc : AppendEntries) : Bool := (applyAppended r rpc).2 != 0

theorem acceptAppend_refused_iff (r : Node) (rpc : AppendEntries) :
    (acceptAppend r rpc).2 = -1 ↔ configRefused r rpc = true := by
  unfold acceptAppend configRefused
  split
  · rename_i shape
    simp [shape]
  · rename_i applied rc other shape
    rw [shape]
    simpa using other

theorem acceptAppend_refused {rpc : AppendEntries} (refused : configRefused r rpc = true) :
    Unchanged r (acceptAppend r rpc).1 := by
  have rc := refused
  unfold configRefused applyAppended at rc
  unfold acceptAppend applyAppended
  split at rc
  · rename_i looks
    rw [if_pos looks]
    have failed := raftApplyConfigFromLog_refused r (by simpa using rc)
    split
    · rename_i shape
      rw [shape] at rc
      simp at rc
    · rename_i shape
      rw [shape] at failed
      exact failed.2
  · simp at rc

/-! ## Entries -/

/-- Entries are spliced in behind the log, or where the log holds another term. -/
theorem scanEntries_splice {log : Log} {entries : List Entry} : ∀ {idx : Int} {cutTo : Option Int}
    {new : List Entry}, scanEntries log idx entries = .splice cutTo new →
    ∃ at_, ∃ entry rest, new = entry :: rest ∧
      ((cutTo = none ∧ raftLogLastIndex log < at_) ∨
        (cutTo = some (at_ - 1) ∧ log.lastIncludedIndex < at_ ∧ at_ ≤ raftLogLastIndex log ∧
          raftLogTermAt log at_ ≠ entry.term)) := by
  induction entries with
  | nil =>
    intro idx cutTo new scan
    cases scan
  | cons entry rest ih =>
    intro idx cutTo new scan
    unfold scanEntries at scan
    split at scan
    · cases scan
    · split at scan
      · exact ih scan
      · rename_i differs
        split at scan
        · rename_i inside
          split at scan
          · cases scan
          · rename_i above
            cases scan
            refine ⟨idx, entry, rest, rfl, .inr ⟨rfl, by omega, inside, ?_⟩⟩
            intro same
            apply differs
            simp only [Bool.and_eq_true, decide_eq_true_eq]
            exact ⟨⟨inside, by omega⟩, same⟩
        · rename_i beyond
          cases scan
          exact ⟨idx, entry, rest, rfl, .inl ⟨rfl, by omega⟩⟩

theorem appendNew_longer (log : Log) (entry : Entry) (rest : List Entry) :
    raftLogLastIndex log < raftLogLastIndex (appendNew log (entry :: rest)) := by
  simp only [raftLogLastIndex, appendNew, List.take_succ_cons, List.length_append, List.length_map,
    List.length_cons]
  omega

theorem appendNew_first {log : Log} {place : Int} (above : log.lastIncludedIndex < place)
    (tip : raftLogLastIndex log + 1 = place) (entry : Entry) (rest : List Entry) :
    (appendNew log (entry :: rest)).entryAt place = some (storedEntry entry) := by
  have offset : log.offset place = log.entries.length := by
    simp only [Log.offset, raftLogLastIndex] at *
    omega
  show (if place ≤ log.lastIncludedIndex then none
    else (log.entries ++ (([entry] ++ rest.takeWhile (fun entry => !termOutOfRange entry.term)).map
      storedEntry))[log.offset place]?) = _
  rw [if_neg (by omega), offset, List.getElem?_append_right (le_refl _)]
  simp

/-- A splice never leaves the log as it was. -/
theorem splice_changes {idx : Int} {entries new : List Entry} {cutTo : Option Int}
    (scan : scanEntries r.log idx entries = .splice cutTo new) :
    appendNew (cutFor r cutTo).log new ≠ r.log := by
  obtain ⟨place, entry, rest, rfl, ⟨rfl, beyond⟩ | ⟨rfl, above, inside, other⟩⟩ :=
    scanEntries_splice scan
  · intro same
    have longer := appendNew_longer r.log entry rest
    rw [show (cutFor r none).log = r.log from rfl] at same
    rw [same] at longer
    omega
  · -- the entry at the place of the cut has the term of the message
    intro same
    have cut : (cutFor r (some (place - 1))).log = { r.log with
        entries := r.log.entries.take (place - 1 - r.log.lastIncludedIndex).toNat } := by
      simp only [cutFor, raftLogCut, raftLogTruncate]
      rw [if_neg (by omega)]
      rfl
    rw [cut] at same
    apply other
    have held : r.log.entryAt place = some (storedEntry entry) := by
      rw [← same]
      refine @appendNew_first { r.log with
        entries := r.log.entries.take (place - 1 - r.log.lastIncludedIndex).toNat } place above ?_
        entry rest
      simp only [raftLogLastIndex, List.length_take] at *
      omega
    unfold raftLogTermAt
    rw [if_neg (by omega), held]
    simp only [Option.map_some, Option.getD_some, storedEntry]
    split
    · rfl
    · rfl

theorem acceptAppend_log (r : Node) (rpc : AppendEntries) : (acceptAppend r rpc).1.log = r.log := by
  have applied := (applyAppended_calm r rpc).log
  have replied : ∀ r, (replyAppend r rpc).log = r.log := by
    intro r
    unfold replyAppend
    split
    · rfl
    · split
      · rfl
      · rfl
  unfold acceptAppend
  split
  · rename_i shape
    rw [shape] at applied
    dsimp only
    rw [replied]
    exact (followCommit_calm _ rpc).log.trans applied
  · rename_i shape
    rw [shape] at applied
    exact applied

/-- What the checks of a message's entries must find for a refusal to change
nothing: a malformed first new entry, or a configuration that is refused with no
entry added, is harmless on a settled node; entries that were added are not taken
back. -/
def EntriesHarmless (r : Node) (rpc : AppendEntries) : Prop :=
  let node := followed r rpc.term rpc.leaderId
  match prevMismatch r.log rpc with
  | some _ => True
  | none =>
    match scanEntries r.log (rpc.prevLogIndex + 1) rpc.entries with
    | .malformed => Settled r rpc.term
    | .belowBase => True
    | .keep => configRefused node rpc = true → Settled r rpc.term
    | .splice cutTo new => allInRange new = true ∧
        configRefused { cutFor node cutTo with log := appendNew (cutFor node cutTo).log new } rpc =
          false

theorem appendToLog_harmless_iff {rpc : AppendEntries} (inside : termOutOfRange rpc.term = false) :
    ((appendToLog (followed r rpc.term rpc.leaderId) rpc).2 = -1 →
      Unchanged r (appendToLog (followed r rpc.term rpc.leaderId) rpc).1) ↔ EntriesHarmless r rpc := by
  have log : (followed r rpc.term rpc.leaderId).log = r.log := adoptTerm_log r rpc.term rpc.leaderId
  unfold appendToLog EntriesHarmless
  rw [log]
  cases prevMismatch r.log rpc with
  | some hint => simp
  | none =>
    cases scan : scanEntries r.log (rpc.prevLogIndex + 1) rpc.entries with
    | malformed =>
      simp only [forall_const]
      exact unchanged_followed_iff inside (.refl _)
    | belowBase => simp
    | keep =>
      dsimp only
      rw [acceptAppend_refused_iff]
      constructor
      · intro holds refused
        exact (unchanged_followed_iff inside (acceptAppend_refused refused)).mp (holds refused)
      · intro holds refused
        exact (unchanged_followed_iff inside (acceptAppend_refused refused)).mpr (holds refused)
    | splice cutTo new =>
      dsimp only
      rw [← log] at scan
      have changes := splice_changes scan
      rw [log] at changes
      by_cases range : allInRange new = true
      · rw [if_pos range, acceptAppend_refused_iff]
        constructor
        · intro holds
          refine ⟨range, ?_⟩
          by_contra refused
          have same := (holds (by simpa using refused)).log
          rw [acceptAppend_log] at same
          exact changes same
        · rintro ⟨-, accepted⟩ refused
          rw [accepted] at refused
          cases refused
      · rw [if_neg range]
        constructor
        · intro holds
          exact absurd (holds rfl).log changes
        · rintro ⟨all, -⟩
          exact absurd all range

/-! ## Snapshot chunks -/

/-- A last chunk that arrives where it is expected and does not end the snapshot. -/
def chunkRefused (r : Node) (rpc : InstallSnapshot) : Bool :=
  rpc.snapshotDone && rpc.snapshotOffset + rpc.snapshotChunkSize != rpc.snapshotDataSize &&
    if r.snapshotRecv.lastIndex ≠ rpc.snapshotLastIndex ||
        r.snapshotRecv.size ≠ rpc.snapshotDataSize then
      (startSnapshotRecv r rpc).2 && rpc.snapshotOffset == 0
    else rpc.snapshotOffset == r.snapshotRecvExpectedOffset

theorem takeChunk_refused_iff (r : Node) (rpc : InstallSnapshot) :
    (takeChunk r rpc).2 = -1 ↔ rpc.snapshotOffset = r.snapshotRecvExpectedOffset ∧
      rpc.snapshotDone = true ∧
      rpc.snapshotOffset + rpc.snapshotChunkSize ≠ rpc.snapshotDataSize := by
  unfold takeChunk
  by_cases here : rpc.snapshotOffset = r.snapshotRecvExpectedOffset
  · rw [if_neg (not_not.mpr here)]
    by_cases ends : rpc.snapshotDone = true ∧
        rpc.snapshotOffset + rpc.snapshotChunkSize ≠ rpc.snapshotDataSize
    · rw [if_pos (by simpa using ends)]
      exact ⟨fun _ => ⟨here, ends⟩, fun _ => rfl⟩
    · rw [if_neg (by simpa using ends)]
      dsimp only
      split
      · simp [ends]
      · simp [ends]
  · rw [if_pos here]
    simp [here]

theorem takeChunk_unchanged (r : Node) (rpc : InstallSnapshot) : Unchanged r (takeChunk r rpc).1 := by
  unfold takeChunk
  split
  · exact .refl r
  · split
    · exact .refl r
    · dsimp only
      split
      · exact ⟨rfl, rfl, rfl, rfl, rfl, rfl, rfl, rfl, .refl _⟩
      · exact ⟨rfl, rfl, rfl, rfl, rfl, rfl, rfl, rfl, .refl _⟩

theorem startSnapshotRecv_spec (r : Node) (rpc : InstallSnapshot) :
    Unchanged r (startSnapshotRecv r rpc).1 ∧
      (startSnapshotRecv r rpc).1.snapshotRecvExpectedOffset = 0 := by
  unfold startSnapshotRecv
  dsimp only
  split
  · exact ⟨⟨rfl, rfl, rfl, rfl, rfl, rfl, rfl, rfl, .refl _⟩, rfl⟩
  · split
    · exact ⟨⟨rfl, rfl, rfl, rfl, rfl, rfl, rfl, rfl, .refl _⟩, rfl⟩
    · exact ⟨⟨rfl, rfl, rfl, rfl, rfl, rfl, rfl, rfl, .refl _⟩, rfl⟩

theorem Unchanged.trans {a b c : Node} (first : Unchanged a b) (second : Unchanged b c) :
    Unchanged a c :=
  ⟨second.log.trans first.log, second.currentTerm.trans first.currentTerm,
    second.votedFor.trans first.votedFor, second.commitIndex.trans first.commitIndex,
    second.state.trans first.state, second.old.trans first.old, second.new.trans first.new,
    second.joint.trans first.joint, second.learners.trans first.learners⟩

theorem recvSnapshotChunk_spec (r : Node) (rpc : InstallSnapshot) :
    ((recvSnapshotChunk r rpc).2 = -1 ↔ chunkRefused r rpc = true) ∧
      Unchanged r (recvSnapshotChunk r rpc).1 := by
  obtain ⟨started, fresh⟩ := startSnapshotRecv_spec r rpc
  unfold recvSnapshotChunk chunkRefused
  by_cases restarts : (r.snapshotRecv.lastIndex ≠ rpc.snapshotLastIndex ||
      r.snapshotRecv.size ≠ rpc.snapshotDataSize) = true
  · rw [if_pos restarts, if_pos restarts]
    split
    · rename_i node shape
      rw [shape] at started fresh
      rw [takeChunk_refused_iff, fresh, shape]
      refine ⟨?_, started.trans (takeChunk_unchanged node rpc)⟩
      simp only [Bool.and_eq_true, bne_iff_ne, beq_iff_eq, true_and]
      tauto
    · rename_i node shape
      rw [shape] at started
      rw [shape]
      exact ⟨by simp, started⟩
  · rw [if_neg restarts, if_neg restarts, takeChunk_refused_iff]
    refine ⟨?_, takeChunk_unchanged r rpc⟩
    simp only [Bool.and_eq_true, bne_iff_ne, beq_iff_eq]
    tauto

/-! ## Messages -/

/-- `raft_recv_append_entries` with the test of the entry count: the model of the message has a list
of entries, so that the count is negative is said beside it. -/
def recvAppendEntriesCounted (r : Node) (sender : Int) (rpc : AppendEntries) (countNegative : Bool) :
    Node × Int :=
  if !raftIdValid sender || !raftIdValid rpc.leaderId || termOutOfRange rpc.term then (r, 0)
  else
    let r := adoptTerm r rpc.term rpc.leaderId
    if rpc.term < r.currentTerm then (r, 0)
    else if r.state = .leader then (r, 0)
    else
      let r := followLeader r rpc.leaderId
      if countNegative then (r, -1) else appendToLog r rpc

/-- `raft_recvfrom_peer` for a message of any content. -/
def recvCounted (r : Node) (msg : PeerMessage) (countNegative : Bool) : Node × Int :=
  match msg.rpc with
  | .appendEntries rpc =>
    if r.phase = .stopped then (r, 0)
    else recvAppendEntriesCounted r msg.sender rpc countNegative
  | _ => raftRecvfromPeer r msg

/-- Messages whose count is the number of their entries are those of the other modules. -/
theorem recvCounted_false (r : Node) (msg : PeerMessage) :
    recvCounted r msg false = raftRecvfromPeer r msg := by
  unfold recvCounted raftRecvfromPeer
  cases msg.rpc with
  | _ => rfl

/-- The entries of this message are looked at. -/
def takesEntries (r : Node) (sender : Int) (rpc : AppendEntries) : Bool :=
  raftIdValid sender && raftIdValid rpc.leaderId && !termOutOfRange rpc.term &&
    decide (r.currentTerm ≤ rpc.term) &&
    !(decide (r.state = .leader) && decide (rpc.term = r.currentTerm))

/-- So is this chunk. -/
def takesChunk (r : Node) (sender : Int) (rpc : InstallSnapshot) : Bool :=
  raftIdValid sender && raftIdValid rpc.leaderId && !termOutOfRange rpc.term &&
    decide (r.currentTerm ≤ rpc.term) && decide (r.log.lastIncludedIndex ≤ rpc.snapshotLastIndex) &&
    !(decide (r.state = .leader) && decide (rpc.term = r.currentTerm))

/-- The node after the message of a snapshot's sender. -/
def followedSnapshot (r : Node) (sender : Int) (rpc : InstallSnapshot) : Node :=
  followSnapshot (followed r rpc.term rpc.leaderId) sender rpc

/-- A follower is told to stand for election and may not. -/
def candidacyRefused (r : Node) (sender : Int) (rpc : TimeoutNow) : Bool :=
  let node := adoptTerm r rpc.term rpc.leaderId
  let last := raftLogLastIndex r.log
  raftIdValid sender && !termOutOfRange rpc.term && decide (r.currentTerm ≤ rpc.term) &&
    (node.state = .follower && rpc.leaderId = node.leaderId && last = rpc.lastLogIndex &&
      raftLogTermAt r.log last = rpc.lastLogTerm) &&
    (raftIsLearner node.config.learners node.cfg.id || decide (termMax ≤ node.currentTerm))

/-- A refusal of this message, if it is refused, comes before anything changes. -/
def RefusedEarly (r : Node) (msg : PeerMessage) (countNegative : Bool) : Prop :=
  r.phase ≠ .stopped →
  match msg.rpc with
  | .appendEntries rpc => takesEntries r msg.sender rpc = true →
      if countNegative then Settled r rpc.term else EntriesHarmless r rpc
  | .installSnapshot rpc => takesChunk r msg.sender rpc = true →
      chunkRefused (followedSnapshot r msg.sender rpc) rpc = true → Settled r rpc.term
  | .timeoutNow rpc => candidacyRefused r msg.sender rpc = true → rpc.term ≤ r.currentTerm
  | _ => True

/-- A leader of an older term has stepped down. -/
theorem adoptTerm_leads_iff {term : Int} (inside : termOutOfRange term = false)
    (current : r.currentTerm ≤ term) (leaderId : Int) :
    (adoptTerm r term leaderId).state = .leader ↔ r.state = .leader ∧ term = r.currentTerm := by
  rcases current.lt_or_eq with newer | same
  · rw [(adoptTerm_newer inside newer leaderId).2]
    constructor
    · intro leads
      cases leads
    · rintro ⟨-, equal⟩
      omega
  · rw [adoptTerm_same (by omega)]
    simp [same]

theorem adoptTerm_below_iff {term : Int} (inside : termOutOfRange term = false) (leaderId : Int) :
    term < (adoptTerm r term leaderId).currentTerm ↔ term < r.currentTerm := by
  by_cases newer : r.currentTerm < term
  · rw [(adoptTerm_newer inside newer leaderId).1]
    omega
  · rw [adoptTerm_same (by omega)]

theorem appendEntries_early_iff (r : Node) (sender : Int) (rpc : AppendEntries)
    (countNegative : Bool) :
    ((recvAppendEntriesCounted r sender rpc countNegative).2 = -1 →
      Unchanged r (recvAppendEntriesCounted r sender rpc countNegative).1) ↔
    (takesEntries r sender rpc = true →
      if countNegative then Settled r rpc.term else EntriesHarmless r rpc) := by
  unfold recvAppendEntriesCounted takesEntries
  split
  · rename_i ignored
    have skipped : (raftIdValid sender && raftIdValid rpc.leaderId && !termOutOfRange rpc.term) =
        false := by
      revert ignored
      cases raftIdValid sender <;> cases raftIdValid rpc.leaderId <;>
        cases termOutOfRange rpc.term <;> simp
    simp [skipped]
  · rename_i taken
    simp only [Bool.or_eq_true, Bool.not_eq_true', not_or, Bool.not_eq_false,
      Bool.not_eq_true] at taken
    obtain ⟨⟨validSender, validLeader⟩, inside⟩ := taken
    dsimp only
    split
    · rename_i older
      rw [adoptTerm_below_iff inside] at older
      simp [not_le.mpr older]
    · rename_i newEnough
      rw [adoptTerm_below_iff inside, not_lt] at newEnough
      split
      · rename_i leads
        rw [adoptTerm_leads_iff inside newEnough] at leads
        simp [leads]
      · rename_i follows
        rw [adoptTerm_leads_iff inside newEnough] at follows
        have reached : (raftIdValid sender && raftIdValid rpc.leaderId &&
            !termOutOfRange rpc.term && decide (r.currentTerm ≤ rpc.term) &&
            !(decide (r.state = .leader) && decide (rpc.term = r.currentTerm))) = true := by
          simp only [validSender, validLeader, inside, newEnough, decide_true, Bool.not_false,
            Bool.and_self, Bool.true_and, Bool.not_eq_true', Bool.and_eq_false_iff,
            decide_eq_false_iff_not]
          tauto
        rw [reached]
        simp only [forall_const]
        cases countNegative with
        | true =>
          simp only [if_true, forall_const]
          exact unchanged_followed_iff inside (.refl _)
        | false =>
          simp only [Bool.false_eq_true, if_false]
          exact appendToLog_harmless_iff inside

theorem installSnapshot_early_iff (r : Node) (sender : Int) (rpc : InstallSnapshot) :
    ((raftRecvInstallSnapshot r sender rpc).2 = -1 →
      Unchanged r (raftRecvInstallSnapshot r sender rpc).1) ↔
    (takesChunk r sender rpc = true → chunkRefused (followedSnapshot r sender rpc) rpc = true →
      Settled r rpc.term) := by
  unfold raftRecvInstallSnapshot takesChunk
  split
  · rename_i ignored
    have skipped : (raftIdValid sender && raftIdValid rpc.leaderId && !termOutOfRange rpc.term) =
        false := by
      revert ignored
      cases raftIdValid sender <;> cases raftIdValid rpc.leaderId <;>
        cases termOutOfRange rpc.term <;> simp
    simp [skipped]
  · rename_i taken
    simp only [Bool.or_eq_true, Bool.not_eq_true', not_or, Bool.not_eq_false,
      Bool.not_eq_true] at taken
    obtain ⟨⟨validSender, validLeader⟩, inside⟩ := taken
    split
    · rename_i stale
      simp only [Bool.or_eq_true, decide_eq_true_eq] at stale
      rcases stale with older | behind
      · simp [not_le.mpr older]
      · simp [not_le.mpr behind]
    · rename_i fresh
      simp only [Bool.or_eq_true, decide_eq_true_eq, not_or, not_lt] at fresh
      obtain ⟨newEnough, covers⟩ := fresh
      dsimp only
      split
      · rename_i leads
        rw [adoptTerm_leads_iff inside newEnough] at leads
        simp [leads]
      · rename_i follows
        rw [adoptTerm_leads_iff inside newEnough] at follows
        have reached : (raftIdValid sender && raftIdValid rpc.leaderId &&
            !termOutOfRange rpc.term && decide (r.currentTerm ≤ rpc.term) &&
            decide (r.log.lastIncludedIndex ≤ rpc.snapshotLastIndex) &&
            !(decide (r.state = .leader) && decide (rpc.term = r.currentTerm))) = true := by
          simp only [validSender, validLeader, inside, newEnough, covers, decide_true,
            Bool.not_false, Bool.and_self, Bool.true_and, Bool.not_eq_true', Bool.and_eq_false_iff,
            decide_eq_false_iff_not]
          tauto
        rw [reached]
        simp only [forall_const]
        obtain ⟨refused, same⟩ := recvSnapshotChunk_spec (followedSnapshot r sender rpc) rpc
        have marked : Unchanged (followed r rpc.term rpc.leaderId) (followedSnapshot r sender rpc) :=
          ⟨rfl, rfl, rfl, rfl, rfl, rfl, rfl, rfl, .refl _⟩
        have settled := @unchanged_followed_iff r _ rpc.term rpc.leaderId inside (marked.trans same)
        show ((recvSnapshotChunk (followedSnapshot r sender rpc) rpc).2 = -1 →
          Unchanged r (recvSnapshotChunk (followedSnapshot r sender rpc) rpc).1) ↔ _
        rw [refused, settled]

theorem timeoutNow_early_iff (r : Node) (sender : Int) (rpc : TimeoutNow) :
    ((raftRecvTimeoutNow r sender rpc).2 = -1 →
      Unchanged r (raftRecvTimeoutNow r sender rpc).1) ↔
    (candidacyRefused r sender rpc = true → rpc.term ≤ r.currentTerm) := by
  unfold raftRecvTimeoutNow candidacyRefused
  split
  · rename_i ignored
    have skipped : (raftIdValid sender && !termOutOfRange rpc.term &&
        decide (r.currentTerm ≤ rpc.term)) = false := by
      simp only [Bool.or_eq_true, Bool.not_eq_true', decide_eq_true_eq] at ignored
      rcases ignored with (invalid | outside) | older
      · simp [invalid]
      · simp [outside]
      · simp [not_le.mpr older]
    simp [skipped]
  · rename_i taken
    simp only [Bool.or_eq_true, Bool.not_eq_true', decide_eq_true_eq, not_or, Bool.not_eq_false,
      Bool.not_eq_true, not_lt] at taken
    obtain ⟨⟨validSender, inside⟩, newEnough⟩ := taken
    dsimp only
    rw [adoptTerm_log]
    split
    · rename_i asked
      rw [asked]
      simp only [validSender, inside, newEnough, decide_true, Bool.not_false, Bool.and_self,
        Bool.true_and, Bool.or_eq_true, decide_eq_true_eq]
      -- a candidacy that is refused leaves the node with the adopted term
      have adopted : Unchanged r (adoptTerm r rpc.term rpc.leaderId) ↔
          rpc.term ≤ r.currentTerm := by
        constructor
        · intro same
          by_contra newer
          have term := (@adoptTerm_newer r rpc.term inside (by omega) rpc.leaderId).1
          have stays := same.currentTerm
          omega
        · intro known
          rw [adoptTerm_same known]
          exact .refl r
      unfold raftBecomeCandidate
      split
      · rename_i learner
        simp only [learner, true_or, forall_const]
        exact adopted
      · rename_i voter
        split
        · rename_i exhausted
          simp only [exhausted, or_true, forall_const]
          exact adopted
        · rename_i room
          simp only [voter, room, or_self, false_implies, iff_true, Bool.false_eq_true]
          split
          · simp
          · simp
    · rename_i other
      have no : (decide ((adoptTerm r rpc.term rpc.leaderId).state = .follower) &&
          decide (rpc.leaderId = (adoptTerm r rpc.term rpc.leaderId).leaderId) &&
          decide (raftLogLastIndex r.log = rpc.lastLogIndex) &&
          decide (raftLogTermAt r.log (raftLogLastIndex r.log) = rpc.lastLogTerm)) = false := by
        simpa using other
      simp [no]

theorem recvReply_rc (r : Node) (sender term : Int) (handle : Peer → Node) :
    (recvReply r sender term handle).2 = 0 := by
  unfold recvReply
  split
  · rfl
  · split
    · rfl
    · split
      · rfl
      · split
        · rfl
        · split
          · rfl
          · split
            · rfl
            · rfl

/-- Every other message is taken or ignored. -/
theorem votes_and_reads_rc (r : Node) (sender : Int) :
    (∀ rpc, (raftRecvRequestVote r sender rpc).2 = 0) ∧
      (∀ result, (raftRecvRequestVoteResult r sender result).2 = 0) ∧
      (∀ rpc, (raftRecvReadIndex r sender rpc).2 = 0) ∧
      (∀ result, (raftRecvReadIndexResult r sender result).2 = 0) := by
  refine ⟨?_, ?_, ?_, ?_⟩
  · intro rpc
    unfold raftRecvRequestVote
    dsimp only
    repeat' split
    all_goals rfl
  · intro result
    unfold raftRecvRequestVoteResult
    repeat' split
    all_goals rfl
  · intro rpc
    unfold raftRecvReadIndex
    repeat' split
    all_goals rfl
  · intro result
    unfold raftRecvReadIndexResult
    repeat' split
    all_goals rfl

/-- A message that a node in any state refuses has changed nothing exactly when the
refusal comes early: before a newer term is adopted, a candidacy ends or an entry goes
into the log. -/
theorem refused_unchanged_iff_early (r : Node) (msg : PeerMessage) (countNegative : Bool) :
    ((recvCounted r msg countNegative).2 = -1 → Unchanged r (recvCounted r msg countNegative).1) ↔
      RefusedEarly r msg countNegative := by
  unfold recvCounted raftRecvfromPeer RefusedEarly
  by_cases stopped : r.phase = .stopped
  · cases msg.rpc with
    | _ => simp [stopped]
  simp only [ne_eq, stopped, if_false, not_false_eq_true, forall_const]
  obtain ⟨vote, voteResult, read, readResult⟩ := votes_and_reads_rc r msg.sender
  have accepted : ∀ {after : Node × Int}, after.2 = 0 → ((after.2 = -1 → Unchanged r after.1) ↔ True) := by
    intro after zero
    simp [zero]
  cases msg.rpc with
  | requestVote rpc => exact accepted (vote rpc)
  | requestVoteResult result => exact accepted (voteResult result)
  | appendEntries rpc => exact appendEntries_early_iff r msg.sender rpc countNegative
  | appendEntriesResult result => exact accepted (recvReply_rc ..)
  | installSnapshot rpc => exact installSnapshot_early_iff r msg.sender rpc
  | installSnapshotResult result => exact accepted (recvReply_rc ..)
  | readIndex rpc => exact accepted (read rpc)
  | readIndexResult result => exact accepted (readResult result)
  | timeoutNow rpc => exact timeoutNow_early_iff r msg.sender rpc

/-- Two entries, the second of which has a term out of range. -/
def halfMalformed : PeerMessage :=
  ⟨2, 1, .appendEntries ⟨1, 0, 0, 0, 0,
    [⟨1, entryCommand, [1], [], [], []⟩, ⟨termMax + 1, entryCommand, [1], [], [], []⟩], 2⟩⟩

/-- A fresh node refuses it, with the first entry in its log. -/
theorem half_malformed_leaves_entry :
    ∃ r, raftCreate ⟨1, [1, 2, 3], false, 10, 100, 200, 7, 1024, 4, none⟩ = some r ∧
      (recvCounted r halfMalformed false).2 = -1 ∧
      ¬ Unchanged r (recvCounted r halfMalformed false).1 := by
  have tested : (raftCreate ⟨1, [1, 2, 3], false, 10, 100, 200, 7, 1024, 4, none⟩).any (fun r =>
      decide ((raftRecvfromPeer r halfMalformed).2 = -1) &&
        decide ((raftRecvfromPeer r halfMalformed).1.log.entries.length ≠ r.log.entries.length)) =
          true := by
    decide +kernel
  obtain ⟨r, created, checks⟩ := (Option.any_eq_true _ _).mp tested
  simp only [Bool.and_eq_true, decide_eq_true_eq] at checks
  rw [← recvCounted_false] at checks
  refine ⟨r, created, checks.1, ?_⟩
  intro same
  exact checks.2 (by rw [same.log])

end Kynovo.Raft.Refusal
