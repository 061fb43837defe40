import Kynovo.Raft.Refusal
import Kynovo.Raft.Vote
import Kynovo.Raft.Stance

/-! Every call is a sequence of moves, in a node whose configuration never changes:
no call of such a node takes a configuration from its log, waits for new servers
or leaves a joint configuration. -/
namespace Kynovo.Raft.Conduct
open Kynovo.Raft.Stance
open Kynovo.Raft.Frame
open Kynovo.Raft.NodeEdits (campaignState tickState)
open Kynovo.Raft.Refusal (adoptTerm_newer adoptTerm_same)
open Kynovo.Raft.Vote (leavesOffice)

structure Goes (voters : List Int) (saves : Prop) (heard : PeerMessage → Prop) (r r' : Node) :
    Prop where
  moves : Settled voters (view r) → 0 < r.cfg.id → Moves voters saves heard (view r) (view r')

variable {voters : List Int} {saves : Prop} {heard : PeerMessage → Prop} {r r' : Node}

theorem Goes.of_same (same : view r' = view r) : Goes voters saves heard r r' :=
  ⟨fun _ _ => same ▸ .refl⟩

theorem Goes.refl (r : Node) : Goes voters saves heard r r := .of_same rfl

theorem Goes.trans {a b c : Node} (first : Goes voters saves heard a b) (second : Goes voters saves heard b c) :
    Goes voters saves heard a c := by
  constructor
  intro settled own
  have there := first.moves settled own
  obtain ⟨settled', same⟩ := there.settled settled own.ne'
  have own' : 0 < b.cfg.id := by
    have id : b.cfg.id = a.cfg.id := same
    rw [id]
    exact own
  exact there.trans (second.moves settled' own')

theorem Goes.after {a b c : Node} (step : Goes voters saves heard b c) (same : view b = view a) :
    Goes voters saves heard a c := (Goes.of_same same).trans step

theorem Goes.move (move : Settled voters (view r) → 0 < r.cfg.id →
    Move voters saves heard (view r) (view r')) : Goes voters saves heard r r' :=
  ⟨fun settled own => .single (move settled own)⟩

theorem Goes.ease (eases : Settled voters (view r) → Eases voters (view r) (view r')) :
    Goes voters saves heard r r' := .move (fun settled _ => .ease (eases settled))

theorem Goes.foldl {α : Type} (change : Node → α → Node)
    (each : ∀ r item, Goes voters saves heard r (change r item)) (items : List α) (r : Node) :
    Goes voters saves heard r (items.foldl change r) := by
  induction items generalizing r with
  | nil => exact .refl r
  | cons item rest ih => exact (each r item).trans (ih (change r item))

theorem Goes.ite {a b : Node} {cond : Prop} [Decidable cond] (whenTrue : Goes voters saves heard r a)
    (whenFalse : Goes voters saves heard r b) : Goes voters saves heard r (if cond then a else b) := by
  split
  · exact whenTrue
  · exact whenFalse

theorem eases_refl {v : View} (settled : Settled voters v) : Eases voters v v where
  id := rfl
  term := rfl
  vote := rfl
  role := .inl rfl
  answer := .inl rfl
  seated := settled.seated
  seats := fun seat held voted => ⟨seat, held, rfl, voted⟩
  masks := rfl
  log := rfl
  snapshot := rfl
  taken := ⟨settled.taken, rfl, rfl⟩
  dirty := id
  received := ⟨settled.received, rfl⟩
  installs := id
  said := fun _ held => held

/-! ## Peers -/

theorem map_seat (peers : List Peer) (change : Peer → Peer)
    (same : ∀ peer, seat (change peer) = seat peer) :
    (peers.map change).map seat = peers.map seat := by
  rw [List.map_map]
  exact List.map_congr_left (fun peer _ => same peer)

theorem updatePeer_seat (peers : List Peer) (id : Int) (change : Peer → Peer)
    (same : ∀ peer, seat (change peer) = seat peer) :
    (updatePeer peers id change).map seat = peers.map seat := by
  induction peers with
  | nil => rfl
  | cons peer rest ih =>
    unfold updatePeer
    split
    · rw [List.map_cons, same, List.map_cons]
    · rw [List.map_cons, ih, List.map_cons]

theorem set_seat {peers : List Peer} {position : Nat} {peer changed : Peer}
    (found : peers[position]? = some peer) (same : seat changed = seat peer) :
    (peers.set position changed).map seat = peers.map seat := by
  induction peers generalizing position with
  | nil => cases found
  | cons first rest ih =>
    cases position with
    | zero =>
      cases found
      rw [List.set_cons_zero, List.map_cons, same, List.map_cons]
    | succ position =>
      rw [List.set_cons_succ, List.map_cons, ih found, List.map_cons]

/-- A change of the peers that no seat shows. -/
theorem Goes.of_seats (peers : List Peer) (same : peers.map seat = r.peers.map seat) :
    Goes voters saves heard r { r with peers } := by
  apply Goes.of_same
  unfold view
  congr 1

/-- The vote of a peer is counted at its seat. -/
theorem updatePeer_vote (peers : List Peer) (id : Int) :
    (updatePeer peers id (fun peer => { peer with vote := true })).map seat =
      markSeat (peers.map seat) id := by
  induction peers with
  | nil => rfl
  | cons peer rest ih =>
    unfold updatePeer
    rw [List.map_cons]
    unfold markSeat
    have same : (seat peer).id = peer.id := rfl
    rw [same]
    split
    · rfl
    · rw [List.map_cons, ih]

theorem mem_seats {peer : Peer} (held : peer ∈ r.peers) : seat peer ∈ (view r).seats :=
  List.mem_map_of_mem held

/-- No peer is the node itself. -/
theorem peer_other (settled : Settled voters (view r)) (nodup : voters.Nodup) {peer : Peer}
    (held : peer ∈ r.peers) : peer.id ≠ r.cfg.id := by
  have distinct := settled.seated.others.nodup_iff.mpr nodup
  have fresh := (List.nodup_cons.mp distinct).1
  intro same
  have seated : peer.id ∈ (view r).seats.map Seat.id :=
    List.mem_map_of_mem (f := Seat.id) (mem_seats held)
  rw [same] at seated
  exact fresh seated

/-! ## Messages -/

/-- A queued message that nothing rests on. -/
theorem view_send {r : Node} {message : PeerMessage} (light : weighty message = false) :
    view { r with msgs := r.msgs ++ [message] } = view r := by
  simp [view, masks, List.filter_append, light]

theorem sendMessage_goes (r : Node) (target : Int) (rpc : Rpc)
    (light : weighty ⟨r.cfg.id, target, rpc⟩ = false) :
    Goes voters saves heard r (sendMessage r target rpc) := .of_same (view_send light)

/-- Queued messages that the sender's state vouches for. -/
theorem say_goes (r : Node) (messages : List PeerMessage)
    (said : Settled voters (view r) → ∀ message ∈ messages.filter weighty,
      message.sender = r.cfg.id ∧ Fair voters message ∧ Vouched saves (view r) message) :
    Goes voters saves heard r { r with msgs := r.msgs ++ messages } := by
  apply Goes.move
  intro settled _
  have shown : view { r with msgs := r.msgs ++ messages } =
      { view r with said := (view r).said ++ messages.filter weighty } := by
    simp [view, masks, List.filter_append]
  rw [shown]
  exact .say _ (said settled)

/-! ## Results and timers -/

theorem raftResultEmit_goes (r : Node) (cookie : Nat) (status : ClientStatus) :
    Goes voters saves heard r (raftResultEmit r cookie status) := .of_same rfl

theorem emitResults_goes (r : Node) (cookies : List Nat) (status : ClientStatus) :
    Goes voters saves heard r (emitResults r cookies status) :=
  .foldl _ (fun r cookie => raftResultEmit_goes r cookie status) cookies r

theorem raftFlushClientResults_goes (r : Node) (status : ClientStatus) :
    Goes voters saves heard r (raftFlushClientResults r status) := by
  unfold raftFlushClientResults
  extract_lets barriers clients reads
  have toBarriers : Goes voters saves heard r barriers := emitResults_goes ..
  have toClients : Goes voters saves heard barriers clients := emitResults_goes ..
  have toReads : Goes voters saves heard clients reads := emitResults_goes ..
  exact ((toBarriers.trans toClients).trans toReads).trans (.of_same rfl)

theorem enqueueApplyFrom_goes (r : Node) (steps : Nat) :
    Goes voters saves heard r (enqueueApplyFrom r steps) := by
  induction steps generalizing r with
  | zero => exact .refl r
  | succ steps ih =>
    unfold enqueueApplyFrom
    split
    · exact .refl r
    · exact (Goes.of_same rfl : Goes voters saves heard r (offerNext r)).trans (ih _)

theorem raftEnqueueApply_goes (r : Node) : Goes voters saves heard r (raftEnqueueApply r) :=
  enqueueApplyFrom_goes ..

theorem raftCheckBarriers_goes (r : Node) : Goes voters saves heard r (raftCheckBarriers r) :=
  (emitResults_goes ..).trans (.of_same rfl)

theorem expireFollowerRead_goes (r : Node) (elapsedMs : Nat) :
    Goes voters saves heard r (expireFollowerRead r elapsedMs) := by
  unfold expireFollowerRead
  split
  · exact .refl r
  · dsimp only
    split
    · exact (emitResults_goes ..).trans (.of_same rfl)
    · exact .of_same rfl

theorem expireBarriers_goes (r : Node) (elapsedMs : Nat) :
    Goes voters saves heard r (expireBarriers r elapsedMs) := by
  unfold expireBarriers
  split
  · split
    · exact (emitResults_goes ..).trans (.of_same rfl)
    · exact .of_same rfl
  · exact .of_same rfl

theorem startFollowerRead_goes (r : Node) : Goes voters saves heard r (startFollowerRead r) := by
  unfold startFollowerRead
  split
  · exact (sendMessage_goes r _ _ rfl).trans (.of_same rfl)
  · exact .refl r

theorem endTransfer_goes (r : Node) (status : ClientStatus) :
    Goes voters saves heard r (endTransfer r status) := (emitResults_goes ..).trans (.of_same rfl)

theorem advanceTransfer_goes (r : Node) (elapsedMs : Nat) :
    Goes voters saves heard r (advanceTransfer r elapsedMs) := by
  unfold advanceTransfer
  split
  · exact .refl r
  · split
    · exact (sendMessage_goes r _ _ rfl).trans (endTransfer_goes ..)
    · dsimp only
      split
      · exact endTransfer_goes ..
      · exact .of_same rfl

theorem advanceTimers_goes (r : Node) (elapsedMs : Nat) (contact : Bool) :
    Goes voters saves heard r (advanceTimers r elapsedMs contact) := .of_same rfl

/-! ## Configuration -/

theorem configAt_none {log : Log} (plain : ∀ entry ∈ log.entries, entry.kind ≠ entryConfig) (idx : Int) :
    log.configAt idx = none := by
  unfold Log.configAt
  cases found : log.entryAt idx with
  | none => rfl
  | some entry =>
    have held : entry ∈ log.entries := by
      unfold Log.entryAt at found
      split at found
      · cases found
      · exact List.mem_of_getElem? found
    simp [plain entry held]

theorem configsAbove_nil {log : Log} (plain : ∀ entry ∈ log.entries, entry.kind ≠ entryConfig)
    (idx : Int) : configsAbove log idx = [] := by
  unfold configsAbove
  rw [List.filterMap_eq_nil_iff]
  intro offset _
  dsimp only
  rw [configAt_none plain]
  split
  · rfl
  · rfl

theorem baseMasks_named {r : Node} (bootstrap : r.config.bootstrap = voters)
    (named : Named voters r.snapshot) : baseMasks r = (voters, voters, []) := by
  obtain ⟨learners, named⟩ := named
  unfold baseMasks
  split
  · rename_i based
    simp only [Bool.and_eq_true, Bool.not_eq_true', List.isEmpty_eq_false_iff] at based
    obtain ⟨old, new⟩ := named.resolve_left based.2
    rw [old, new, learners]
  · rw [bootstrap]

section
variable (settled : Settled voters (view r))
include settled

theorem config_eq : r.config.old = voters ∧ r.config.new = voters ∧ r.config.learners = [] ∧
    r.config.bootstrap = voters ∧ r.config.joint = false ∧ r.config.pending = false ∧
      r.config.applyStale = false ∧ r.catchup.active = false := by
  have same := settled.masks
  simp only [view, masks, Masks.settled, Masks.mk.injEq] at same
  exact same

/-- The configuration in force is the one the log gives. -/
theorem applyConfig_eq : raftApplyConfigFromLog r = (r, 0) := by
  obtain ⟨old, new, learners, bootstrap, joint, -, stale, -⟩ := config_eq settled
  have plain : ∀ entry ∈ r.log.entries, entry.kind ≠ entryConfig := settled.plain
  unfold raftApplyConfigFromLog
  rw [configsAbove_nil plain, List.getLast?_nil, baseMasks_named bootstrap settled.snapshot]
  dsimp only
  rw [if_pos]
  simp [old, new, learners, joint, stale]

theorem reapplyStale_eq : reapplyStale r = (r, 0) := by
  obtain ⟨-, -, -, -, -, -, stale, -⟩ := config_eq settled
  simp [reapplyStale, stale]

theorem tickCatchup_eq (elapsedMs : Nat) : tickCatchup r elapsedMs = (r, false) := by
  obtain ⟨-, -, -, -, -, -, -, idle⟩ := config_eq settled
  simp [tickCatchup, idle]

theorem jointAbortDue_eq (elapsedMs : Nat) : jointAbortDue r elapsedMs = false := by
  obtain ⟨-, -, -, -, joint, -⟩ := config_eq settled
  simp [jointAbortDue, joint]

theorem raftMaybeFinalizeJoint_eq : raftMaybeFinalizeJoint r = (r, 0) := by
  obtain ⟨-, -, -, -, joint, -⟩ := config_eq settled
  simp [raftMaybeFinalizeJoint, joint]

theorem settleJoint_eq : settleJoint r = r := by
  obtain ⟨-, -, -, -, joint, -⟩ := config_eq settled
  simp [settleJoint, joint]

/-- No configuration is found among the applied entries. -/
theorem scanCommitted_eq (removed : Bool) (steps : Nat) (idx : Int) :
    scanCommitted r removed steps idx = (r, 0, removed) := by
  induction steps generalizing idx with
  | zero => rfl
  | succ steps ih =>
    have plain : ∀ entry ∈ r.log.entries, entry.kind ≠ entryConfig := settled.plain
    unfold scanCommitted
    rw [configAt_none plain]
    exact ih (idx + 1)

end

/-! ## Elections -/

theorem fewer_clear (old seats : List Seat) : FewerVotes old (seats.map clearVote) := by
  intro held isHeld voted
  obtain ⟨was, -, rfl⟩ := List.mem_map.mp isHeld
  cases voted

theorem stepDown_seats (r : Node) (term newLeaderId : Int) :
    (view (stepDownFields r term newLeaderId)).seats = (view r).seats.map clearVote := by
  simp [view, stepDownFields, raftConfigPendingClear, raftConfigPendingOnlyClear,
    Function.comp_def, seat, clearVote]

theorem stepDown_masks (settled : Settled voters (view r)) (term newLeaderId : Int) :
    (view (stepDownFields r term newLeaderId)).masks = (view r).masks := by
  obtain ⟨-, -, -, -, -, pending, -, idle⟩ := config_eq settled
  simp [view, masks, stepDownFields, raftConfigPendingClear, raftConfigPendingOnlyClear,
    Catchup.none, pending, idle]

/-- What a step-down does after term and vote are set. -/
theorem raftStepDown_flushes (r : Node) (term newLeaderId : Int) (inRange : termOutOfRange term = false) :
    Goes voters saves heard (stepDownFields r term newLeaderId) (raftStepDown r term newLeaderId) := by
  have flushed : Goes voters saves heard (stepDownFields r term newLeaderId) _ :=
    raftFlushClientResults_goes _ .redirect
  unfold raftStepDown
  simp only [inRange, Bool.false_eq_true, if_false]
  have unread : ∀ node : Node, Goes voters saves heard node { node with readBarrierGen := 0 } :=
    fun _ => .of_same rfl
  exact flushed.trans ((unread _).trans (emitResults_goes _ _ _))

/-- The way to a newer term. -/
theorem raftStepDown_goes (r : Node) (term newLeaderId : Int) (above : r.currentTerm < term) :
    Goes voters saves heard r (raftStepDown r term newLeaderId) := by
  cases inRange : termOutOfRange term with
  | true =>
    have stays : raftStepDown r term newLeaderId = r := by simp [raftStepDown, inRange]
    rw [stays]
    exact .refl r
  | false =>
    have fields : Goes voters saves heard r (stepDownFields r term newLeaderId) := by
      constructor
      intro settled _
      have newer := settled.newer above.le
      refine .tail (.single (.newer term above)) (.ease { eases_refl newer with
        seated := ?_, seats := ?_, masks := stepDown_masks settled term newLeaderId,
        dirty := ?_, installs := ?_, received := ⟨newer.received, rfl⟩ })
      · rw [stepDown_seats]
        exact settled.seated.clear
      · rw [stepDown_seats]
        exact fewer_clear _ _
      · intro set
        cases set
      · intro set
        cases set
    exact fields.trans (raftStepDown_flushes r term newLeaderId inRange)

theorem adoptTerm_goes (r : Node) (term leaderId : Int) :
    Goes voters saves heard r (adoptTerm r term leaderId) := by
  unfold adoptTerm
  split
  · rename_i above
    exact raftStepDown_goes r term leaderId above
  · exact .refl r

/-- The leader gives up its office; its log ends in its term. -/
theorem raftStepDown_own_goes (r : Node) (newLeaderId : Int) (leads : r.state = .leader)
    (ends : r.currentTerm ≤ lastTerm r.log) :
    Goes voters saves heard r (raftStepDown r r.currentTerm newLeaderId) := by
  cases inRange : termOutOfRange r.currentTerm with
  | true =>
    have stays : raftStepDown r r.currentTerm newLeaderId = r := by simp [raftStepDown, inRange]
    rw [stays]
    exact .refl r
  | false =>
    have fields : Goes voters saves heard r (stepDownFields r r.currentTerm newLeaderId) := by
      constructor
      intro settled own
      have move : Move voters saves heard (view r) _ := .leave leads ends
      have left := move.settled settled own.ne'
      refine .tail (.single move) (.ease { eases_refl left with
        seated := ?_, seats := ?_, masks := stepDown_masks settled r.currentTerm newLeaderId,
        dirty := ?_, installs := ?_, received := ⟨left.received, rfl⟩ })
      · rw [stepDown_seats]
        exact settled.seated.clear
      · rw [stepDown_seats]
        exact fewer_clear _ _
      · intro set
        cases set
      · intro set
        cases set
    exact fields.trans (raftStepDown_flushes r r.currentTerm newLeaderId inRange)

theorem view_candidate (r : Node) : view (candidateFields r) = { view r with
    term := (view r).term + 1
    vote := (view r).id
    role := .candidate
    answer := none
    seats := (view r).seats.map clearVote } := by
  simp [view, masks, candidateFields, waiting, Function.comp_def, seat, clearVote]

theorem candidateFields_goes (r : Node) : Goes voters saves heard r (candidateFields r) := by
  apply Goes.move
  intro _ _
  rw [view_candidate]
  exact .stand

/-- Without other voters the only one is a majority. -/
theorem leadAlone_goes (r : Node) (stands : r.state = .candidate)
    (alone : raftHasVoterPeer r = false) : Goes voters saves heard r (leadAlone r) := by
  apply Goes.move
  intro settled _
  have none : r.peers = [] := by
    cases peers : r.peers with
    | nil => rfl
    | cons peer rest =>
      have voting := (settled.seated.voting (seat peer)
        (mem_seats (by rw [peers]; exact List.mem_cons_self))).1
      have voter : peer.isLearner = false := voting
      simp [raftHasVoterPeer, peers, voter] at alone
  have single : voters.length = 1 := by
    have others := settled.seated.others.length_eq
    simpa [view, none] using others.symm
  have shown : view (leadAlone r) = { view r with
      role := .leader
      log := raftLogAppend (view r).log (noopEntry (view r).term) } := by
    simp [view, masks, leadAlone, none]
  rw [shown]
  exact .lead stands (by rw [single]; omega)

theorem raftBecomeCandidate_goes (r : Node) : Goes voters saves heard r (raftBecomeCandidate r).1 := by
  have stands : Goes voters saves heard r (candidateFields r) := candidateFields_goes r
  unfold raftBecomeCandidate
  split
  · exact .refl r
  · split
    · exact .refl r
    · dsimp only
      split
      · rename_i alone
        simp only [Bool.not_eq_true'] at alone
        exact stands.trans (leadAlone_goes _ rfl alone)
      · exact stands.trans (.of_same rfl)

theorem preVoteFields_view (r : Node) : view (preVoteFields r) = view r := by
  unfold view
  congr 1
  exact map_seat _ _ (fun _ => rfl)

theorem broadcastPre_view (r : Node) : view (raftBroadcastVote r true) = view r := by
  simp [view, masks, raftBroadcastVote, List.filter_append, List.filter_map, weighty, voteRequest,
    Function.comp_def]

theorem raftStartPreVote_goes (r : Node) : Goes voters saves heard r (raftStartPreVote r).1 := by
  have fields : Goes voters saves heard r (preVoteFields r) := .of_same (preVoteFields_view r)
  unfold raftStartPreVote
  dsimp only
  split
  · split
    · exact fields.trans (raftBecomeCandidate_goes _)
    · exact fields
  · exact fields.trans (.of_same (broadcastPre_view _))

theorem campaign_goes (r : Node) : Goes voters saves heard r (campaign r).1 := by
  unfold campaign
  split
  · exact raftStartPreVote_goes r
  · exact .refl r

/-- A quorum of the votes is a majority of the voters. -/
theorem majority_of_votes (settled : Settled voters (view r)) (reached : votesReached r false = true) :
    voters.length / 2 + 1 ≤ 1 + (view r).seats.countP Seat.vote := by
  obtain ⟨-, -, -, -, joint, -⟩ := config_eq settled
  have others := settled.seated.others.length_eq
  have all : countPeers r false (fun _ => true) = (view r).seats.length := by
    have every : countPeers r false (fun _ => true) = r.peers.length := by
      unfold countPeers
      rw [List.countP_eq_length]
      intro peer held
      have voting := settled.seated.voting _ (mem_seats held)
      simp only [seat] at voting
      simp [voting.1, voting.2, Peer.inConfig]
    rw [every]
    simp [view]
  have votes : raftCountVotes r false false ≤ (view r).seats.countP Seat.vote := by
    unfold raftCountVotes countPeers view
    dsimp only
    rw [List.countP_map]
    refine List.countP_mono_left (fun peer _ counted => ?_)
    simp only [Bool.and_eq_true] at counted
    exact counted.2
  have self : (r.selfIn false).toNat ≤ 1 := by
    cases r.selfIn false <;> decide
  simp only [votesReached, quorumReached, joint, Bool.false_eq_true, if_false, decide_eq_true_eq,
    raftQuorumSizeOf, all] at reached
  simp only [List.length_cons, List.length_map] at others
  omega

theorem raftBecomeLeader_goes (r : Node) (stands : r.state = .candidate)
    (reached : votesReached r false = true) : Goes voters saves heard r (raftBecomeLeader r) := by
  constructor
  intro settled own
  have shown : view (leaderFields r) = { view r with
      role := .leader
      log := raftLogAppend (view r).log (noopEntry (view r).term) } := by
    simp [view, masks, leaderFields, Function.comp_def, seat]
  have led : Moves voters saves heard (view r) (view (leaderFields r)) := by
    rw [shown]
    exact .single (.lead stands (majority_of_votes settled reached))
  have settled' := (led.settled settled own.ne').1
  unfold raftBecomeLeader
  rw [settleJoint_eq settled']
  exact led

/-! ## The leader's tick -/

theorem advanceCommitFrom_view (r : Node) (steps : Nat) (idx : Int) :
    view (advanceCommitFrom r steps idx) = view r := by
  induction steps generalizing r idx with
  | zero => rfl
  | succ steps ih =>
    unfold advanceCommitFrom
    split
    · exact ih r (idx + 1)
    · split
      · exact ih _ _
      · rfl

theorem raftAdvanceCommit_view (r : Node) : view (raftAdvanceCommit r) = view r :=
  advanceCommitFrom_view ..

theorem raftQueueAppendEntries_state (r : Node) (position : Nat) :
    (raftQueueAppendEntries r position).state = r.state := by
  unfold raftQueueAppendEntries
  split
  · rfl
  · split
    · split
      · rfl
      · rfl
    · rfl

/-- What is sent to a peer is a piece of the leader's log. -/
theorem appendMessage_quotes (r : Node) (peer : Peer) (above : r.log.lastIncludedIndex < peer.nextIndex) :
    Quotes r.log (appendMessage r peer) := by
  refine ⟨?_, rfl, appendCount r.log peer.nextIndex, ?_⟩
  · have shown : (appendMessage r peer).prevLogIndex = peer.nextIndex - 1 := rfl
    omega
  · have back : peer.nextIndex - 1 + 1 = peer.nextIndex := by omega
    show _ = (r.log.entries.drop (r.log.offset (peer.nextIndex - 1 + 1))).take _
    rw [back]
    rfl

theorem raftQueueAppendEntries_goes (r : Node) (position : Nat) (nodup : voters.Nodup)
    (leads : r.state = .leader) : Goes voters saves heard r (raftQueueAppendEntries r position) := by
  unfold raftQueueAppendEntries
  split
  · exact .refl r
  · rename_i peer found
    split
    · split
      · exact .refl r
      · apply Goes.of_same
        unfold view
        congr 1
        exact set_seat found rfl
    · rename_i above
      have reseated : Goes voters saves heard r { r with
          peers := r.peers.set position
            { peer with pendingSnapshotOffset := min peer.pendingSnapshotOffset 0 } } :=
        .of_seats _ (set_seat found rfl)
      refine reseated.trans (say_goes _ _ ?_)
      intro settled message held
      have fromOld : Settled voters (view r) := by
        have same : view { r with
            peers := r.peers.set position
              { peer with pendingSnapshotOffset := min peer.pendingSnapshotOffset 0 } } = view r := by
          unfold view
          congr 1
          exact set_seat found rfl
        rwa [same] at settled
      simp only [List.mem_filter, List.mem_singleton] at held
      obtain ⟨rfl, -⟩ := held
      refine ⟨rfl, ⟨peer_other fromOld nodup (List.mem_of_getElem? found), fun entry isSent => ?_⟩,
        leads, rfl, appendMessage_quotes r peer (not_le.mp above)⟩
      have held : entry ∈ r.log.entries := List.mem_of_mem_drop (List.mem_of_mem_take isSent)
      exact ⟨fromOld.plain entry held, fromOld.bounded.entries entry held⟩

theorem queueAll_goes (positions : List Nat) (r : Node) (nodup : voters.Nodup)
    (leads : r.state = .leader) :
    Goes voters saves heard r (positions.foldl raftQueueAppendEntries r) := by
  induction positions generalizing r with
  | nil => exact .refl r
  | cons position rest ih =>
    exact (raftQueueAppendEntries_goes r position nodup leads).trans
      (ih _ ((raftQueueAppendEntries_state r position).trans leads))

/-- Older append messages are superseded. -/
theorem startHeartbeat_goes (r : Node) : Goes voters saves heard r (startHeartbeat r) := by
  apply Goes.ease
  intro settled
  have seats : (view (startHeartbeat r)).seats = (view r).seats := map_seat _ _ (fun _ => rfl)
  exact { eases_refl settled with
    seated := by
      rw [seats]
      exact settled.seated
    seats := by
      rw [seats]
      exact (eases_refl settled).seats
    said := fun message held => by
      simp only [view, startHeartbeat, List.mem_filter] at held ⊢
      exact ⟨held.1.1, held.2⟩ }

theorem tickHeartbeat_goes (r : Node) (nodup : voters.Nodup) (leads : r.state = .leader) :
    Goes voters saves heard r (tickHeartbeat r) := by
  unfold tickHeartbeat
  split
  · exact ((startHeartbeat_goes r).trans (queueAll_goes _ _ nodup leads)).trans (.of_same rfl)
  · exact .refl r

theorem tickReadIndex_goes (r : Node) : Goes voters saves heard r (tickReadIndex r) := by
  unfold tickReadIndex
  split
  · apply Goes.of_same
    simp [view, masks, List.filter_append, List.filter_map, weighty, Function.comp_def]
  · exact .refl r

theorem tickLearner_goes (elapsedMs : Nat) (r : Node) (position : Nat) :
    Goes voters saves heard r (tickLearner elapsedMs r position) := by
  unfold tickLearner
  split
  · exact .refl r
  · rename_i peer found
    have put {r' : Node} {changed : Peer} (same : view r' = view r) (peers : r'.peers = r.peers)
        (kept : seat changed = seat peer) :
        Goes voters saves heard r { r' with peers := r.peers.set position changed } := by
      have reseated : Goes voters saves heard r' { r' with peers := r.peers.set position changed } :=
        .of_seats _ (by rw [peers]; exact set_seat found kept)
      exact reseated.after same
    refine .ite (.refl r) (.ite ?_ (.ite (.ite (.ite ?_ ?_) ?_) ?_))
    · exact put rfl rfl rfl
    · exact put rfl rfl rfl
    · exact put rfl rfl rfl
    · exact put rfl rfl rfl
    · exact put rfl rfl rfl

theorem tickSend_goes (r : Node) (elapsedMs : Nat) (nodup : voters.Nodup) (leads : r.state = .leader) :
    Goes voters saves heard r (tickSend r elapsedMs) :=
  ((tickHeartbeat_goes r nodup leads).trans (tickReadIndex_goes _)).trans
    (.foldl _ (tickLearner_goes elapsedMs) _ _)

theorem quorumTick_view (r : Node) (elapsedMs : Nat) :
    view (tickReadRound (tickContact (tickJointElapsed r elapsedMs))) = view r := by
  have joint : view (tickJointElapsed r elapsedMs) = view r := by
    unfold tickJointElapsed
    split
    · rfl
    · rfl
  have contact : ∀ r, view (tickContact r) = view r := by
    intro r
    unfold tickContact
    split
    · rfl
    · rfl
  have round : ∀ r, view (tickReadRound r) = view r := by
    intro r
    unfold tickReadRound
    split
    · rfl
    · rfl
  rw [round, contact, joint]

theorem tickLead_goes (r : Node) (elapsedMs : Nat) (nodup : voters.Nodup) (leads : r.state = .leader)
    (ends : (tickReadRound (tickContact (tickJointElapsed r elapsedMs))).timers.electionDeadline ≤
      (tickReadRound (tickContact (tickJointElapsed r elapsedMs))).timers.electionElapsed →
        r.currentTerm ≤ lastTerm r.log) : Goes voters saves heard r (tickLead r elapsedMs) := by
  have same := quorumTick_view r elapsedMs
  have role : (tickReadRound (tickContact (tickJointElapsed r elapsedMs))).state = .leader :=
    (congrArg View.role same).trans leads
  unfold tickLead
  extract_lets ticked
  split
  · rename_i due
    have term : ticked.currentTerm = r.currentTerm := congrArg View.term same
    have log : ticked.log = r.log := congrArg View.log same
    refine (raftStepDown_own_goes ticked 0 role ?_).after same
    rw [term, log]
    exact ends due
  · have committed : view (raftAdvanceCommit ticked) = view r :=
      (raftAdvanceCommit_view ticked).trans same
    constructor
    intro settled own
    have settled' : Settled voters (view (raftAdvanceCommit ticked)) := committed ▸ settled
    rw [raftMaybeFinalizeJoint_eq settled']
    have role' : (raftAdvanceCommit ticked).state = .leader :=
      (congrArg View.role committed).trans leads
    exact ((tickSend_goes _ elapsedMs nodup role').after committed).moves settled own

theorem leavesOffice_eq (settled : Settled voters (view r)) (elapsedMs : Nat) :
    leavesOffice r elapsedMs =
      decide ((tickReadRound (tickContact (tickJointElapsed r elapsedMs))).timers.electionDeadline ≤
        (tickReadRound (tickContact (tickJointElapsed r elapsedMs))).timers.electionElapsed) := by
  unfold leavesOffice
  rw [tickCatchup_eq settled]
  dsimp only
  rw [jointAbortDue_eq settled]
  rfl

theorem raftLeaderTick_goes (r : Node) (elapsedMs : Nat) (nodup : voters.Nodup)
    (leads : r.state = .leader)
    (ends : leavesOffice r elapsedMs = true → r.currentTerm ≤ lastTerm r.log) :
    Goes voters saves heard r (raftLeaderTick r elapsedMs) := by
  constructor
  intro settled own
  rw [leavesOffice_eq settled, decide_eq_true_eq] at ends
  unfold raftLeaderTick
  rw [tickCatchup_eq settled]
  dsimp only
  rw [jointAbortDue_eq settled]
  exact (tickLead_goes r elapsedMs nodup leads ends).moves settled own

/-! ## raft_advance -/

theorem releaseVote_goes (r : Node) : Goes voters saves heard r (releaseVote r) := by
  unfold releaseVote
  split
  · rename_i due
    simp only [Bool.and_eq_true] at due
    have said : Goes voters saves heard r
        (sendMessage r r.deferredVote.target (.requestVoteResult ⟨r.currentTerm, true, false⟩)) := by
      refine say_goes r _ (fun _ message held => ?_)
      simp only [List.mem_filter, List.mem_singleton] at held
      obtain ⟨rfl, -⟩ := held
      have latched : (view r).answer = some r.deferredVote.target := by
        simp [view, waiting, due.1]
      exact ⟨rfl, trivial, rfl, latched⟩
    refine said.trans (.ease (fun settled => ?_))
    exact { eases_refl settled with answer := .inr rfl }
  · exact .refl r

theorem releaseAppend_goes (r : Node) : Goes voters saves heard r (releaseAppend r) := by
  have reported : Goes voters saves heard r (reportAppend r) := by
    unfold reportAppend
    exact .ite ((sendMessage_goes r _ _ rfl).trans (.of_same rfl)) (.refl r)
  have settles : ∀ r, Goes voters saves heard r (settleAppend r) := by
    intro r
    unfold settleAppend
    exact .ite (.of_same rfl) (.refl r)
  unfold releaseAppend
  exact .ite (reported.trans (settles _)) (.refl r)

theorem releaseReject_goes (r : Node) : Goes voters saves heard r (releaseReject r) := by
  unfold releaseReject
  exact .ite ((sendMessage_goes r _ _ rfl).trans (.of_same rfl)) (.refl r)

/-- The vote requests of a candidate: its log has no entry of its term. -/
theorem releaseVoteRequest_goes (r : Node) (nodup : voters.Nodup) :
    Goes voters saves heard r (releaseVoteRequest r) := by
  unfold releaseVoteRequest
  split
  · rename_i due
    simp only [Bool.and_eq_true, decide_eq_true_eq] at due
    have said : Goes voters saves heard r (raftBroadcastVote r false) := by
      refine say_goes r _ (fun settled message held => ?_)
      simp only [List.mem_filter, List.mem_map] at held
      obtain ⟨⟨peer, listed, rfl⟩, -⟩ := held
      obtain ⟨-, positive, bounded⟩ := settled.standing due.2
      have older : raftLogTermAt r.log (raftLogLastIndex r.log) ≤ r.currentTerm - 1 :=
        bounded.termAt (by omega) _
      have newer : raftLogTermAt r.log (raftLogLastIndex r.log) < r.currentTerm := by omega
      exact ⟨rfl, fun _ => ⟨peer_other settled nodup listed.1, rfl, newer⟩, due.2, rfl⟩
    exact said.trans (.of_same rfl)
  · exact .refl r

theorem advanceReplies_goes (r : Node) (elapsedMs : Nat) (nodup : voters.Nodup) :
    Goes voters saves heard r (advanceReplies r elapsedMs) := by
  have timed : Goes voters saves heard r _ := (advanceTimers_goes r elapsedMs (r.state ≠ .leader)).trans
    ((expireFollowerRead_goes _ elapsedMs).trans (expireBarriers_goes _ elapsedMs))
  have transferred : Goes voters saves heard r _ := timed.trans
    ((startFollowerRead_goes _).trans (advanceTransfer_goes _ elapsedMs))
  exact ((transferred.trans (releaseVote_goes _)).trans (releaseAppend_goes _)).trans
    ((releaseReject_goes _).trans (releaseVoteRequest_goes _ nodup))

theorem enterPhase_goes (r : Node) : Goes voters saves heard r (enterPhase r) := by
  unfold enterPhase
  split
  · apply Goes.ease
    intro settled
    exact { eases_refl settled with
      role := .inr rfl
      dirty := nofun }
  · exact .of_same rfl
  · exact .refl r

theorem raftStop_goes (r : Node) : Goes voters saves heard r (raftStop r) := by
  unfold raftStop
  split
  · exact .of_same rfl
  · exact .of_same rfl
  · exact .refl r

theorem tickIfLeader_goes (r : Node) (elapsedMs : Nat) (nodup : voters.Nodup)
    (ends : r.state = .leader → leavesOffice r elapsedMs = true → r.currentTerm ≤ lastTerm r.log) :
    Goes voters saves heard r (tickIfLeader r elapsedMs) := by
  unfold tickIfLeader
  split
  · rename_i leads
    exact raftLeaderTick_goes r elapsedMs nodup leads (ends leads)
  · exact .refl r

theorem raftAdvanceInner_goes (r : Node) (elapsedMs : Nat) (nodup : voters.Nodup)
    (ends : ∀ leader, tickState r = some leader → leavesOffice leader elapsedMs = true →
      leader.currentTerm ≤ lastTerm leader.log) :
    Goes voters saves heard r (raftAdvanceInner r elapsedMs) := by
  constructor
  intro settled own
  have current := reapplyStale_eq settled
  have campaigned : Goes voters saves heard r (campaign r).1 := campaign_goes r
  unfold raftAdvanceInner
  split
  · rename_i applied appliedShape
    rw [current] at appliedShape
    cases appliedShape
    split
    · rename_i elected shape
      rw [shape] at campaigned
      have reached : elected.state = .leader → tickState r = some elected := by
        intro leads
        simp [tickState, campaignState, current, shape, leads]
      have ticked : Goes voters saves heard elected (tickIfLeader elected elapsedMs) :=
        tickIfLeader_goes elected elapsedMs nodup (fun leads => ends elected (reached leads))
      exact ((campaigned.trans ticked).trans
        ((raftEnqueueApply_goes _).trans (raftCheckBarriers_goes _))).moves settled own
    · rename_i shape
      rw [shape] at campaigned
      exact campaigned.moves settled own
  · rename_i refusedShape
    rw [current] at refusedShape
    cases refusedShape
    exact .refl

theorem failCatchup_goes (r : Node) : Goes voters saves heard r (failCatchup r) := by
  constructor
  intro settled _
  obtain ⟨-, -, -, -, -, -, -, idle⟩ := config_eq settled
  have same : failCatchup r = r := by simp [failCatchup, idle]
  rw [same]
  exact .refl

theorem finishDrain_goes (r : Node) : Goes voters saves heard r (finishDrain r) := by
  have flushed : Goes voters saves heard r _ := raftFlushClientResults_goes r .failed
  have dropped : Goes voters saves heard (raftFlushClientResults r .failed)
      (dropReadIndex (raftFlushClientResults r .failed)) := .of_same rfl
  have ended : Goes voters saves heard (dropReadIndex (raftFlushClientResults r .failed)) _ :=
    (failCatchup_goes (dropReadIndex (raftFlushClientResults r .failed))).trans
      (endTransfer_goes _ .failed)
  have stopped : ∀ node : Node, Goes voters saves heard node { node with phase := .stopped } :=
    fun _ => .of_same rfl
  exact ((flushed.trans dropped).trans ended).trans (stopped _)

theorem advanceOutput_goes (r : Node) (phaseStopped : Bool) :
    Goes voters saves heard r (advanceOutput r phaseStopped).1 := .of_same rfl

theorem advanceDrain_goes (r : Node) (elapsedMs : Nat) :
    Goes voters saves heard r (advanceDrain r elapsedMs).1 := by
  have drained : Goes voters saves heard r _ := (advanceTimers_goes r elapsedMs true).trans
    ((raftEnqueueApply_goes _).trans (raftCheckBarriers_goes _))
  unfold advanceDrain
  dsimp only
  split
  · exact (drained.trans (finishDrain_goes _)).trans (advanceOutput_goes ..)
  · exact drained.trans (advanceOutput_goes ..)

theorem raftAdvance_goes (r : Node) (elapsedMs : Nat) (nodup : voters.Nodup)
    (ends : ∀ leader, tickState (advanceReplies (enterPhase r) elapsedMs) = some leader →
      leavesOffice leader elapsedMs = true → leader.currentTerm ≤ lastTerm leader.log) :
    Goes voters saves heard r (raftAdvance r elapsedMs).1 := by
  have entered : Goes voters saves heard r (enterPhase r) := enterPhase_goes r
  unfold raftAdvance
  dsimp only
  split
  · exact entered.trans (advanceDrain_goes ..)
  · exact entered
  · exact ((entered.trans (advanceReplies_goes _ elapsedMs nodup)).trans
      (raftAdvanceInner_goes _ elapsedMs nodup ends)).trans (advanceOutput_goes ..)

/-! The leader that a tick may take out of office. -/

theorem advanceReplies_log (r : Node) (elapsedMs : Nat) :
    (advanceReplies r elapsedMs).log = r.log ∧
      (advanceReplies r elapsedMs).currentTerm = r.currentTerm := by
  have calm := (advanceTimers_calm r elapsedMs (r.state ≠ .leader)).trans
    ((expireFollowerRead_calm _ elapsedMs).trans ((expireBarriers_calm _ elapsedMs).trans
      ((startFollowerRead_calm _).trans (advanceTransfer_calm _ elapsedMs))))
  have votes : ∀ r, (releaseVote r).log = r.log ∧ (releaseVote r).currentTerm = r.currentTerm := by
    intro r
    unfold releaseVote
    split
    · exact ⟨rfl, rfl⟩
    · exact ⟨rfl, rfl⟩
  have appends : ∀ r, (releaseAppend r).log = r.log ∧
      (releaseAppend r).currentTerm = r.currentTerm := by
    intro r
    unfold releaseAppend settleAppend reportAppend
    repeat' split
    all_goals exact ⟨rfl, rfl⟩
  have rejects : ∀ r, (releaseReject r).log = r.log ∧
      (releaseReject r).currentTerm = r.currentTerm := by
    intro r
    unfold releaseReject
    split
    · exact ⟨rfl, rfl⟩
    · exact ⟨rfl, rfl⟩
  have requests : ∀ r, (releaseVoteRequest r).log = r.log ∧
      (releaseVoteRequest r).currentTerm = r.currentTerm := by
    intro r
    unfold releaseVoteRequest
    split
    · exact ⟨rfl, rfl⟩
    · exact ⟨rfl, rfl⟩
  unfold advanceReplies
  dsimp only
  rw [(requests _).1, (requests _).2, (rejects _).1, (rejects _).2, (appends _).1, (appends _).2,
    (votes _).1, (votes _).2]
  exact ⟨calm.log, calm.currentTerm⟩

theorem leadAlone_ends (r : Node) : (leadAlone r).currentTerm ≤ lastTerm (leadAlone r).log := by
  have after : ¬ r.log.lastIncludedIndex + ((r.log.entries.length + 1 : Nat) : Int) ≤
      r.log.lastIncludedIndex := by
    omega
  have offset : (r.log.lastIncludedIndex + ((r.log.entries.length + 1 : Nat) : Int) -
      r.log.lastIncludedIndex - 1).toNat = r.log.entries.length := by
    omega
  simp only [lastTerm, leadAlone, raftLogAppend, raftLogTermAt, raftLogLastIndex, Log.entryAt,
    Log.offset, List.length_append, List.length_singleton, after, if_false, offset,
    List.getElem?_concat_length, Option.map_some, Option.getD_some, storedEntry_term]
  exact le_refl _

theorem raftBecomeCandidate_ends (r : Node) (other : r.state ≠ .leader)
    (leads : (raftBecomeCandidate r).1.state = .leader) :
    (raftBecomeCandidate r).1.currentTerm ≤ lastTerm (raftBecomeCandidate r).1.log := by
  unfold raftBecomeCandidate at leads ⊢
  split at leads
  · exact absurd leads other
  · split at leads
    · exact absurd leads other
    · rename_i voter terms
      rw [if_neg voter, if_neg terms]
      dsimp only at leads ⊢
      split at leads
      · rename_i alone
        rw [if_pos alone]
        exact leadAlone_ends _
      · cases leads

/-- A leader that ticks is the one that led before, or has just put its first entry
into the log. -/
theorem tickState_ends (r : Node) {leader : Node} (settled : Settled voters (view r))
    (reached : tickState r = some leader)
    (ends : r.state = .leader → r.currentTerm ≤ lastTerm r.log) :
    leader.currentTerm ≤ lastTerm leader.log := by
  unfold tickState campaignState at reached
  rw [reapplyStale_eq settled] at reached
  simp only [Option.bind_some] at reached
  split at reached
  · rename_i elected shape
    split at reached
    · rename_i leads
      cases reached
      unfold campaign at shape
      split at shape
      · rename_i due
        simp only [Bool.and_eq_true, decide_eq_true_eq] at due
        have before : (preVoteFields r).state ≠ .leader := due.1
        unfold raftStartPreVote at shape
        dsimp only at shape
        split at shape
        · split at shape
          · have same : (raftBecomeCandidate (preVoteFields r)).1 = leader := by rw [shape]
            rw [← same] at leads ⊢
            exact raftBecomeCandidate_ends _ before leads
          · cases shape
            exact absurd leads before
        · cases shape
          exact absurd leads before
      · cases shape
        exact ends leads
    · cases reached
  · cases reached

/-! ## Peer messages -/

section
variable {message : PeerMessage} (given : heard message) (fair : Fair voters message)

theorem adoptTerm_reaches (r : Node) {term : Int} (leaderId : Int)
    (inRange : termOutOfRange term = false) : term ≤ (adoptTerm r term leaderId).currentTerm := by
  rcases lt_or_ge r.currentTerm term with above | below
  · exact (adoptTerm_newer inRange above leaderId).1.ge
  · rw [adoptTerm_same below]
    exact below

include given fair in
/-- A vote is cast for the candidate of the message. -/
theorem raftRecvRequestVote_goes (r : Node) (rpc : RequestVote)
    (shape : message.rpc = .requestVote rpc) :
    Goes voters saves heard r (raftRecvRequestVote r message.sender rpc).1 := by
  have adopted : Goes voters saves heard r (adoptTerm r rpc.term 0) := adoptTerm_goes r rpc.term 0
  unfold raftRecvRequestVote
  split
  · exact .refl r
  · rename_i valid
    simp only [Bool.or_eq_true, Bool.not_eq_true', not_or, Bool.not_eq_false, Bool.not_eq_true]
      at valid
    have reaches := adoptTerm_reaches r 0 valid.2
    split
    · exact .refl r
    · dsimp only
      split
      · exact adopted
      · rename_i current
        split
        · exact adopted
        · rename_i free
          split
          · exact adopted
          · rename_i upToDate
            split
            · rename_i pre
              exact adopted.trans (sendMessage_goes _ _ _ rfl)
            · rename_i real
              simp only [Bool.not_eq_true] at real
              simp only [real, Bool.not_false, Bool.true_and, Bool.and_eq_true, decide_eq_true_eq,
                not_and, not_not] at free
              simp only [Bool.not_eq_true', Bool.not_eq_false, logOk, Bool.or_eq_true,
                Bool.and_eq_true, decide_eq_true_eq, beq_iff_eq] at upToDate
              have chosen : (adoptTerm r rpc.term 0).votedFor = 0 ∨
                  (adoptTerm r rpc.term 0).votedFor = rpc.candidateId := by
                by_cases none : (adoptTerm r rpc.term 0).votedFor = 0
                · exact .inl none
                · exact .inr (free none)
              have newest : lastTerm (adoptTerm r rpc.term 0).log ≤ rpc.lastLogTerm := by
                rcases upToDate with newer | ⟨same, -⟩
                · exact newer.le
                · exact same.ge
              have candidate : 0 < rpc.candidateId := by
                simpa [raftIdValid] using valid.1.2
              have move : Goes voters saves heard (adoptTerm r rpc.term 0)
                  (grantVote (adoptTerm r rpc.term 0) message.sender rpc.candidateId) :=
                .move (fun _ _ => .cast message rpc given shape fair real
                  (le_antisymm reaches (not_lt.mp current)) candidate chosen newest)
              exact adopted.trans move

theorem markPreVote_view (r : Node) (sender : Int) (granted : Bool) :
    view (markVote r sender granted true) = view r := by
  unfold markVote
  split
  · unfold view
    congr 1
    exact updatePeer_seat _ _ _ (fun _ => rfl)
  · rfl

theorem countPreVote_goes (r : Node) : Goes voters saves heard r (countPreVote r) := by
  unfold countPreVote
  split
  · exact (raftBecomeCandidate_goes _).after rfl
  · exact .refl r

theorem countVote_goes (r : Node) (stands : r.state = .candidate) :
    Goes voters saves heard r (countVote r) := by
  unfold countVote
  split
  · rename_i reached
    exact raftBecomeLeader_goes r stands reached
  · exact .refl r

include given in
theorem markVote_goes (r : Node) (result : RequestVoteResult)
    (shape : message.rpc = .requestVoteResult result) (real : result.preVote = false)
    (now : result.term = r.currentTerm) (stands : r.state = .candidate) :
    Goes voters saves heard r (markVote r message.sender result.voteGranted false) := by
  unfold markVote
  split
  · rename_i granted
    apply Goes.move
    intro _ _
    have shown : view { r with
        peers := updatePeer r.peers message.sender (fun peer =>
          if false then { peer with preVoteAcked := true } else { peer with vote := true }) } =
        { view r with seats := markSeat (view r).seats message.sender } := by
      unfold view
      congr 1
      exact updatePeer_vote r.peers message.sender
    exact shown ▸ .count message result given shape granted real now stands
  · exact .refl r

include given in
theorem raftRecvRequestVoteResult_goes (r : Node) (result : RequestVoteResult)
    (shape : message.rpc = .requestVoteResult result) :
    Goes voters saves heard r (raftRecvRequestVoteResult r message.sender result).1 := by
  unfold raftRecvRequestVoteResult
  split
  · exact .refl r
  · split
    · exact .refl r
    · split
      · rename_i above
        exact raftStepDown_goes r result.term 0 above
      · rename_i notAbove
        split
        · exact .refl r
        · rename_i notBelow
          split
          · exact .refl r
          · split
            · split
              · exact (countPreVote_goes _).after (markPreVote_view ..)
              · exact .refl r
            · rename_i real
              simp only [Bool.not_eq_true] at real
              split
              · exact .refl r
              · rename_i stands
                simp only [not_not] at stands
                have marked : Goes voters saves heard r
                    (markVote r message.sender result.voteGranted false) :=
                  markVote_goes given r result shape real (by omega) stands
                have still : (markVote r message.sender result.voteGranted false).state =
                    .candidate := by
                  unfold markVote
                  split
                  · exact stands
                  · exact stands
                exact marked.trans (countVote_goes _ still)

theorem applyAppended_eq (settled : Settled voters (view r)) (rpc : AppendEntries) :
    applyAppended r rpc = (r, 0) := by
  unfold applyAppended
  rw [applyConfig_eq settled]
  split
  · rfl
  · rfl

theorem replyAppend_view (r : Node) (rpc : AppendEntries) : view (replyAppend r rpc) = view r := by
  unfold replyAppend
  split
  · exact view_send rfl
  · split
    · rfl
    · rfl

theorem followCommit_view (r : Node) (rpc : AppendEntries) : view (followCommit r rpc) = view r := by
  unfold followCommit
  split
  · rfl
  · rfl

theorem acceptAppend_goes (r : Node) (rpc : AppendEntries) :
    Goes voters saves heard r (acceptAppend r rpc).1 := by
  constructor
  intro settled own
  unfold acceptAppend
  split
  · rename_i applied shape
    rw [applyAppended_eq settled] at shape
    cases shape
    dsimp only
    refine (Goes.of_same ((replyAppend_view _ rpc).trans ?_)).moves settled own
    exact followCommit_view r rpc
  · rename_i shape
    rw [applyAppended_eq settled] at shape
    cases shape
    exact .refl

theorem replyFail_goes (r : Node) (rpc : AppendEntries) (hint : Int) :
    Goes voters saves heard r (replyFail r rpc hint) := by
  unfold replyFail
  dsimp only
  exact .ite (.of_same rfl) (sendMessage_goes _ _ _ rfl)

theorem cutFor_view (r : Node) (cutTo : Option Int) :
    view (cutFor r cutTo) =
      { view r with log := (cutTo.bind (raftLogTruncate r.log)).getD r.log } := by
  cases cutTo with
  | none => rfl
  | some idx =>
    unfold cutFor raftLogCut
    dsimp only [Option.bind_some]
    cases raftLogTruncate r.log idx with
    | none => rfl
    | some log => rfl

include given fair in
theorem appendToLog_goes (r : Node) (rpc : AppendEntries) (shape : message.rpc = .appendEntries rpc)
    (now : rpc.term = r.currentTerm) (follows : r.state = .follower) :
    Goes voters saves heard r (appendToLog r rpc).1 := by
  unfold appendToLog
  split
  · exact replyFail_goes ..
  · rename_i matched
    split
    · exact .refl r
    · exact replyFail_goes ..
    · exact acceptAppend_goes r rpc
    · rename_i cutTo new scanned
      have spliced : Goes voters saves heard r
          { cutFor r cutTo with log := appendNew (cutFor r cutTo).log new } := by
        apply Goes.move
        intro _ _
        have log : (cutFor r cutTo).log = (cutTo.bind (raftLogTruncate r.log)).getD r.log :=
          congrArg View.log (cutFor_view r cutTo)
        have shown : view { cutFor r cutTo with log := appendNew (cutFor r cutTo).log new } =
            { view r with log := appendNew (cutFor r cutTo).log new } := by
          have same := cutFor_view r cutTo
          calc view { cutFor r cutTo with log := appendNew (cutFor r cutTo).log new } =
              { view (cutFor r cutTo) with log := appendNew (cutFor r cutTo).log new } := rfl
            _ = { view r with log := appendNew (cutFor r cutTo).log new } := by rw [same]
        rw [shown, log]
        exact .splice message rpc given shape fair now follows _
          ⟨matched, cutTo, new, scanned, rfl⟩
      dsimp only
      split
      · exact spliced.trans (acceptAppend_goes _ rpc)
      · exact spliced

/-- A node that does not lead follows the leader of its term. -/
theorem followLeader_goes (r : Node) (leaderId : Int) : Goes voters saves heard r (followLeader r leaderId) := by
  apply Goes.ease
  intro settled
  exact { eases_refl settled with role := .inr rfl }

include given fair in
theorem raftRecvAppendEntries_goes (r : Node) (rpc : AppendEntries)
    (shape : message.rpc = .appendEntries rpc) :
    Goes voters saves heard r (raftRecvAppendEntries r message.sender rpc).1 := by
  have adopted : Goes voters saves heard r (adoptTerm r rpc.term rpc.leaderId) :=
    adoptTerm_goes r rpc.term rpc.leaderId
  unfold raftRecvAppendEntries
  split
  · exact .refl r
  · rename_i valid
    simp only [Bool.or_eq_true, not_or, Bool.not_eq_true] at valid
    have reaches := adoptTerm_reaches r rpc.leaderId valid.2
    dsimp only
    split
    · exact adopted
    · rename_i current
      split
      · exact adopted
      · exact (adopted.trans (followLeader_goes _ _)).trans (appendToLog_goes given fair _ rpc shape
          (le_antisymm reaches (not_lt.mp current)) rfl)

/-! Snapshots -/

theorem makeSortedIds_nil : raftMakeSortedIds [] = some [] := rfl

include given fair in
/-- A new stream takes over what its first message names. -/
theorem startSnapshotRecv_goes (r : Node) (rpc : InstallSnapshot)
    (shape : message.rpc = .installSnapshot rpc) (now : rpc.term = r.currentTerm)
    (follows : r.state = .follower) (sorted : raftMakeSortedIds voters = some voters) :
    Goes voters saves heard r (startSnapshotRecv r rpc).1 := by
  have promise := fair
  simp only [Fair, shape] at promise
  obtain ⟨-, older, learners, named⟩ := promise
  dsimp only at learners named
  have bounded : rpc.snapshotLastTerm ≤ r.currentTerm := older.trans now.le
  unfold startSnapshotRecv
  rw [learners, makeSortedIds_nil]
  rcases named with none | ⟨old, new⟩
  · rw [none]
    exact .move (fun _ _ => .receive message rpc given shape fair now follows
      ⟨rpc.snapshotLastIndex, rpc.snapshotLastTerm, rpc.snapshotDataSize, [], [], []⟩ false
      ⟨rfl, .inl rfl⟩ bounded)
  · rw [old, new, sorted]
    have masked : (if voters.isEmpty then some (([] : List Int), ([] : List Int)) else
        (do some (← some voters, ← some voters))) = some (voters, voters) := by
      cases voters with
      | nil => rfl
      | cons first rest => rfl
    rw [masked]
    exact .move (fun _ _ => .receive message rpc given shape fair now follows
      ⟨rpc.snapshotLastIndex, rpc.snapshotLastTerm, rpc.snapshotDataSize, voters, voters, []⟩ false
      ⟨rfl, .inr ⟨rfl, rfl⟩⟩ bounded)

include given fair in
theorem takeChunk_goes (r : Node) (rpc : InstallSnapshot)
    (shape : message.rpc = .installSnapshot rpc) (now : rpc.term = r.currentTerm)
    (follows : r.state = .follower) : Goes voters saves heard r (takeChunk r rpc).1 := by
  have promise := fair
  simp only [Fair, shape] at promise
  have bounded : rpc.snapshotLastTerm ≤ r.currentTerm := promise.2.1.trans now.le
  unfold takeChunk
  split
  · exact .refl r
  · split
    · exact .refl r
    · dsimp only
      split
      · apply Goes.move
        intro settled _
        obtain ⟨learners, named⟩ : Named voters r.snapshotRecv := settled.received
        exact .receive message rpc given shape fair now follows
          { r.snapshotRecv with
            lastIndex := rpc.snapshotLastIndex
            lastTerm := rpc.snapshotLastTerm
            size := rpc.snapshotDataSize } true ⟨learners, named⟩ bounded
      · exact .of_same rfl

theorem startSnapshotRecv_same (r : Node) (rpc : InstallSnapshot) :
    (startSnapshotRecv r rpc).1.state = r.state ∧
      (startSnapshotRecv r rpc).1.currentTerm = r.currentTerm := by
  unfold startSnapshotRecv
  dsimp only
  split
  · exact ⟨rfl, rfl⟩
  · split
    · exact ⟨rfl, rfl⟩
    · exact ⟨rfl, rfl⟩

include given fair in
theorem recvSnapshotChunk_goes (r : Node) (rpc : InstallSnapshot)
    (shape : message.rpc = .installSnapshot rpc) (now : rpc.term = r.currentTerm)
    (follows : r.state = .follower) (sorted : raftMakeSortedIds voters = some voters) :
    Goes voters saves heard r (recvSnapshotChunk r rpc).1 := by
  have started : Goes voters saves heard r (startSnapshotRecv r rpc).1 :=
    startSnapshotRecv_goes given fair r rpc shape now follows sorted
  have same := startSnapshotRecv_same r rpc
  unfold recvSnapshotChunk
  split
  · split
    · rename_i next startShape
      rw [startShape] at started same
      exact started.trans (takeChunk_goes given fair next rpc shape (now.trans same.2.symm)
        (same.1.trans follows))
    · rename_i next startShape
      rw [startShape] at started
      exact started
  · exact takeChunk_goes given fair r rpc shape now follows

include given fair in
theorem raftRecvInstallSnapshot_goes (r : Node) (rpc : InstallSnapshot)
    (shape : message.rpc = .installSnapshot rpc) (sorted : raftMakeSortedIds voters = some voters) :
    Goes voters saves heard r (raftRecvInstallSnapshot r message.sender rpc).1 := by
  have adopted : Goes voters saves heard r (adoptTerm r rpc.term rpc.leaderId) :=
    adoptTerm_goes r rpc.term rpc.leaderId
  unfold raftRecvInstallSnapshot
  split
  · exact .refl r
  · rename_i valid
    simp only [Bool.or_eq_true, not_or, Bool.not_eq_true] at valid
    split
    · exact sendMessage_goes _ _ _ rfl
    · rename_i current
      simp only [Bool.or_eq_true, decide_eq_true_eq, not_or, not_lt] at current
      dsimp only
      split
      · exact adopted
      · have reached : rpc.term = (adoptTerm r rpc.term rpc.leaderId).currentTerm := by
          rcases current.1.lt_or_eq with above | same
          · exact (adoptTerm_newer valid.2 above rpc.leaderId).1.symm
          · rw [adoptTerm_same same.ge]
            exact same.symm
        have followed : Goes voters saves heard (adoptTerm r rpc.term rpc.leaderId)
            (followSnapshot (followLeader (adoptTerm r rpc.term rpc.leaderId) rpc.leaderId)
              message.sender rpc) :=
          (followLeader_goes _ _).trans (.of_seats _ (updatePeer_seat _ _ _ (fun _ => rfl)))
        exact (adopted.trans followed).trans
          (recvSnapshotChunk_goes given fair _ rpc shape reached rfl sorted)

/-! Replies, reads and transfers -/

theorem recvReply_goes (r : Node) (sender term : Int) (handle : Peer → Node)
    (handled : ∀ peer, Goes voters saves heard r (handle peer)) :
    Goes voters saves heard r (recvReply r sender term handle).1 := by
  unfold recvReply
  split
  · exact .refl r
  · split
    · exact .refl r
    · split
      · exact .refl r
      · split
        · rename_i above
          exact raftStepDown_goes r term 0 above
        · split
          · exact .refl r
          · split
            · exact .refl r
            · exact handled _

theorem acked_goes (r : Node) (peers : List Peer) (same : peers.map seat = r.peers.map seat)
    (isLearner : Bool) :
    Goes voters saves heard r (if isLearner then { r with peers } else raftAdvanceCommit { r with peers }) := by
  have reseated : Goes voters saves heard r { r with peers } := .of_seats peers same
  exact .ite reseated (reseated.trans (.of_same (raftAdvanceCommit_view _)))

theorem ackPeer_seat (r : Node) (result : AppendEntriesResult) (peer : Peer) :
    seat (ackPeer r result peer) = seat peer := by
  unfold ackPeer
  dsimp only
  repeat' split
  all_goals rfl

theorem installAck_seat (result : InstallSnapshotResult) (peer : Peer) :
    seat (installAck result peer) = seat peer := by
  unfold installAck
  dsimp only
  repeat' split
  all_goals rfl

theorem joinRound_goes (r : Node) (waiting : Nat) : Goes voters saves heard r (joinRound r waiting) := by
  unfold joinRound
  dsimp only
  split
  · have restarted : Goes voters saves heard r (raftReadRoundRestart r) := by
      apply Goes.of_same
      unfold view
      congr 1
      exact map_seat _ _ (fun _ => rfl)
    exact restarted.trans (.of_same rfl)
  · exact .of_same rfl

theorem raftRecvReadIndex_goes (r : Node) (sender : Int) (rpc : ReadIndexReq) :
    Goes voters saves heard r (raftRecvReadIndex r sender rpc).1 := by
  unfold raftRecvReadIndex
  split
  · exact .refl r
  · split
    · rename_i above
      split
      · exact .refl r
      · exact raftStepDown_goes r rpc.term 0 above
    · split
      · exact .refl r
      · exact (joinRound_goes _ _).after rfl

theorem raftRecvReadIndexResult_goes (r : Node) (sender : Int) (result : ReadIndexResult) :
    Goes voters saves heard r (raftRecvReadIndexResult r sender result).1 := by
  unfold raftRecvReadIndexResult
  split
  · exact .refl r
  · split
    · rename_i above
      exact raftStepDown_goes r result.term 0 above
    · split
      · exact .refl r
      · exact .of_same rfl

theorem raftRecvTimeoutNow_goes (r : Node) (sender : Int) (rpc : TimeoutNow) :
    Goes voters saves heard r (raftRecvTimeoutNow r sender rpc).1 := by
  have adopted : Goes voters saves heard r (adoptTerm r rpc.term rpc.leaderId) :=
    adoptTerm_goes r rpc.term rpc.leaderId
  unfold raftRecvTimeoutNow
  split
  · exact .refl r
  · dsimp only
    split
    · exact adopted.trans (raftBecomeCandidate_goes _)
    · exact adopted

include given fair in
theorem raftRecvfromPeer_goes (r : Node) (sorted : raftMakeSortedIds voters = some voters) :
    Goes voters saves heard r (raftRecvfromPeer r message).1 := by
  unfold raftRecvfromPeer
  split
  · exact .refl r
  · cases shape : message.rpc with
    | requestVote rpc => exact raftRecvRequestVote_goes given fair r rpc shape
    | requestVoteResult result => exact raftRecvRequestVoteResult_goes given r result shape
    | appendEntries rpc => exact raftRecvAppendEntries_goes given fair r rpc shape
    | appendEntriesResult result =>
      exact recvReply_goes _ _ _ _ (fun peer =>
        acked_goes r _ (updatePeer_seat _ _ _ (ackPeer_seat r result)) peer.isLearner)
    | installSnapshot rpc => exact raftRecvInstallSnapshot_goes given fair r rpc shape sorted
    | installSnapshotResult result =>
      exact recvReply_goes _ _ _ _ (fun peer =>
        acked_goes r _ (updatePeer_seat _ _ _ (installAck_seat result)) peer.isLearner)
    | readIndex rpc => exact raftRecvReadIndex_goes r _ rpc
    | readIndexResult result => exact raftRecvReadIndexResult_goes r _ result
    | timeoutNow rpc => exact raftRecvTimeoutNow_goes r _ rpc

end

/-! ## Client requests -/

/-- The leader puts the commands into its log. -/
theorem raftSubmit_goes (r : Node) (commands : List Command) :
    Goes voters saves heard r (raftSubmit r commands).1 := by
  unfold raftSubmit
  split
  · exact .refl r
  · split
    · exact .refl r
    · rename_i accepted
      simp only [Bool.or_eq_true, decide_eq_true_eq, not_or, not_not] at accepted
      have leads : (view r).role = .leader := accepted.1.1.2
      refine .move (fun _ _ => .append (commands.map (fun item =>
        ⟨r.currentTerm, entryCommand, item.command, [], [], []⟩)) leads (fun entry held => ?_))
      obtain ⟨item, -, rfl⟩ := List.mem_map.mp held
      exact ⟨rfl, nofun, rfl⟩

theorem raftBarrier_goes (r : Node) (cookie : Nat) : Goes voters saves heard r (raftBarrier r cookie).1 := by
  unfold raftBarrier
  split
  · exact .refl r
  · split
    · split
      · exact .refl r
      · exact (joinRound_goes _ _).after rfl
    · split
      · exact .refl r
      · exact .of_same rfl
    · exact .refl r

theorem raftTransfer_goes (r : Node) (cookie : Nat) (targetId : Int) :
    Goes voters saves heard r (raftTransfer r cookie targetId).1 := by
  unfold raftTransfer
  split
  · exact .refl r
  · exact .of_same rfl

/-- The request does not change the membership. -/
def keepsMembers : ClientMessage → Bool
  | .submit _ => true
  | .barrier _ => true
  | .transfer _ _ => true
  | _ => false

theorem raftRecvfromClient_goes (r : Node) (msg : ClientMessage) (keeps : keepsMembers msg = true) :
    Goes voters saves heard r (raftRecvfromClient r msg).1 := by
  cases msg with
  | submit commands => exact raftSubmit_goes r commands
  | barrier cookie => exact raftBarrier_goes r cookie
  | transfer cookie targetId => exact raftTransfer_goes r cookie targetId
  | _ => cases keeps

/-! ## Local snapshots -/

theorem raftSnapshot_goes (r : Node) (allowed : saves) :
    Goes voters saves heard r (raftSnapshot r).1 := by
  constructor
  intro settled _
  obtain ⟨old, new, learners, -⟩ := config_eq settled
  unfold raftSnapshot
  split
  · exact .refl
  · rename_i accepted
    simp only [Bool.or_eq_true, decide_eq_true_eq, not_or] at accepted
    rw [learners, makeSortedIds_nil]
    dsimp only
    rw [old, new]
    exact .single (.take r.lastApplied allowed accepted.1.1.1.2)

theorem raftSnapshotDataReady_goes (r : Node) (totalSize : Int) :
    Goes voters saves heard r (raftSnapshotDataReady r totalSize).1 := by
  unfold raftSnapshotDataReady
  split
  · exact .refl r
  · apply Goes.ease
    intro settled
    exact { eases_refl settled with taken := ⟨settled.taken, rfl, rfl⟩ }

theorem raftSnapshotDataProvided_goes (r : Node) (followerId byteOffset : Int) (size : Nat)
    (allowed : saves) (nodup : voters.Nodup) :
    Goes voters saves heard r (raftSnapshotDataProvided r followerId byteOffset size).1 := by
  unfold raftSnapshotDataProvided
  split
  · exact .refl r
  · rename_i accepted
    simp only [Bool.or_eq_true, decide_eq_true_eq, not_or, not_not] at accepted
    split
    · exact .refl r
    · rename_i peer found
      split
      · exact .refl r
      · dsimp only
        refine Goes.trans (say_goes r _ (fun settled message held => ?_))
          (.of_seats _ (updatePeer_seat _ _ _ (fun _ => rfl)))
        simp only [List.mem_filter, List.mem_singleton] at held
        obtain ⟨rfl, -⟩ := held
        have listed : peer ∈ r.peers := List.mem_of_find?_eq_some found
        have named : peer.id = followerId := by
          have tested := List.find?_some found
          exact beq_iff_eq.mp tested
        have other := peer_other settled nodup listed
        rw [named] at other
        exact ⟨rfl, ⟨other, settled.bounded.snapshot, settled.snapshot⟩, allowed, accepted.2, rfl⟩

/-! ## Completions -/

theorem raftPersistComplete_goes (r : Node) (durableIndex : Int) :
    Goes voters saves heard r (raftPersistComplete r durableIndex).1 := by
  unfold raftPersistComplete
  split
  · exact .refl r
  · have committed : ∀ r, view (commitIfLeader r) = view r := by
      intro r
      unfold commitIfLeader
      split
      · exact raftAdvanceCommit_view r
      · rfl
    exact .of_same (committed _)

theorem raftSnapshotPersistComplete_goes (r : Node) (durableIndex : Int) :
    Goes voters saves heard r (raftSnapshotPersistComplete r durableIndex).1 := by
  unfold raftSnapshotPersistComplete
  split
  · exact .refl r
  · split
    · rename_i due
      simp only [Bool.and_eq_true] at due
      split
      · exact .refl r
      · rename_i log compacted
        apply Goes.move
        intro _ _
        have seats : (r.peers.map (fun peer =>
            { peer with pendingSnapshotOffset := 0 })).map seat = r.peers.map seat :=
          map_seat _ _ (fun _ => rfl)
        have move : Move voters saves heard (view r) _ := .compact log due.1.1 compacted
        refine Eq.subst (motive := Move voters saves heard (view r)) ?_ move
        unfold view
        dsimp only
        rw [seats]
        rfl
    · exact .refl r

theorem completeView_goes (r : Node) (view : Wal.Record.Persist) :
    Goes voters saves heard r (completeView r view) := by
  have reported : Goes voters saves heard r (raftPersistComplete r (viewDurable view)).1 :=
    raftPersistComplete_goes r _
  unfold completeView
  dsimp only
  split
  · exact reported.trans (raftSnapshotPersistComplete_goes _ _)
  · exact reported

/-! ## Installing a snapshot -/

/-- A voter that has not voted. -/
def freshSeat (id : Int) : Seat := ⟨id, false, true, false⟩

theorem seat_carry (r : Node) (id : Int) (nextIndex : Int) :
    seat (raftPeerCarry { id, inOldConfig := true, inNewConfig := true, nextIndex } r.peers false) =
      freshSeat id := by
  unfold raftPeerCarry
  split
  · rfl
  · rfl

theorem addVoters_seats (r : Node) (ids : List Int) (listed : List Peer) (nodup : ids.Nodup)
    (apart : ∀ id ∈ ids, ∀ peer ∈ listed, peer.id ≠ id) :
    (addVoters r ids true true listed).map seat =
      listed.map seat ++ (ids.filter (· ≠ r.cfg.id)).map freshSeat := by
  induction ids generalizing listed with
  | nil => simp [addVoters]
  | cons id rest ih =>
    obtain ⟨fresh, nodup⟩ := List.nodup_cons.mp nodup
    unfold addVoters at ih ⊢
    rw [List.foldl_cons]
    by_cases self : id = r.cfg.id
    · rw [if_pos self, ih listed nodup (fun other held => apart other (List.mem_cons_of_mem _ held))]
      simp [self]
    · have missing : listed.any (fun peer => peer.id == id) = false := by
        rw [List.any_eq_false]
        intro peer held
        simp [apart id List.mem_cons_self peer held]
      rw [if_neg self, missing, if_neg (by decide), ih _ nodup]
      · rw [List.map_append, List.map_singleton, seat_carry,
          List.filter_cons_of_pos (by simpa using self), List.map_cons, List.append_assoc,
          List.singleton_append]
      · intro other held peer isListed
        rcases List.mem_append.mp isListed with old | isNew
        · exact apart other (List.mem_cons_of_mem _ held) peer old
        · rw [List.mem_singleton.mp isNew]
          intro same
          have named : id = other :=
            (congrArg Seat.id (seat_carry r id (raftLogLastIndex r.log + 1))).symm.trans same
          exact fresh (named ▸ held)

/-- The seats of the other voters. -/
def otherSeats (voters : List Int) (id : Int) : List Seat :=
  (voters.filter (· ≠ id)).map freshSeat

theorem otherSeats_seated {id : Int} (nodup : voters.Nodup) (member : id ∈ voters) :
    Seated voters id (otherSeats voters id) where
  others := by
    unfold otherSeats
    rw [List.map_map]
    have ids : (voters.filter (· ≠ id)).map (Seat.id ∘ freshSeat) = voters.erase id := by
      rw [nodup.erase_eq_filter]
      simp [Function.comp_def, freshSeat, decide_not]
      rfl
    rw [ids]
    exact (List.perm_cons_erase member).symm
  voting := fun held isHeld => by
    obtain ⟨other, -, rfl⟩ := List.mem_map.mp isHeld
    exact ⟨rfl, rfl⟩

theorem otherSeats_fresh {id : Int} : ∀ seat ∈ otherSeats voters id, seat.vote = false := by
  intro held isHeld
  obtain ⟨other, -, rfl⟩ := List.mem_map.mp isHeld
  rfl

theorem rebuildPeers_view (r : Node) (nodup : voters.Nodup) (joint : r.config.joint = false)
    (new : r.config.new = voters) (learners : r.config.learners = []) :
    view (rebuildPeers r) = { view r with seats := otherSeats voters r.cfg.id } := by
  have none : ∀ peers, addLearners r peers = peers := by
    intro peers
    unfold addLearners
    rw [learners, List.foldl_nil]
  have seats : (addVoters r voters true true []).map seat = otherSeats voters r.cfg.id := by
    rw [addVoters_seats r voters [] nodup (fun _ _ _ held => nomatch held)]
    rfl
  have normal : rebuildPeers r = { r with peers := addVoters r voters true true [] } := by
    unfold rebuildPeers raftRebuildPeersNormal
    rw [joint, none, new]
    rfl
  rw [normal, ← seats]
  rfl

theorem installLog_view (r : Node) :
    view (installLog r) = { view r with log := installedLog r.log r.snapshotRecv } := by
  unfold installLog boundaryMatches installedLog
  by_cases matched : r.snapshotRecv.lastIndex ≤ raftLogLastIndex r.log ∧
      raftLogTermAt r.log r.snapshotRecv.lastIndex = r.snapshotRecv.lastTerm
  · rw [if_pos matched, if_pos (by simpa using matched)]
    cases raftLogCompactPrefix r.log r.snapshotRecv.lastIndex r.snapshotRecv.lastTerm with
    | none => rfl
    | some log => rfl
  · rw [if_neg matched, if_neg (by simpa using matched)]
    rfl

/-- The view after an installed snapshot, whatever masks it brought. -/
def installedView (voters : List Int) (v : View) : View := { v with
  log := installedLog v.log v.received
  snapshot := v.received
  received := .zero
  installs := false
  seats := otherSeats voters v.id }

theorem installLog_config (r : Node) : (installLog r).config = r.config := by
  unfold installLog
  dsimp only
  split
  · rfl
  · rfl

theorem installState_view {named : List Int} (r : Node) (nodup : named.Nodup)
    (joint : (installConfig r).config.joint = false) (new : (installConfig r).config.new = named)
    (learners : (installConfig r).config.learners = []) :
    view (installState r) = { view (installConfig r) with
      log := installedLog r.log r.snapshotRecv
      snapshot := r.snapshotRecv
      received := .zero
      installs := false
      seats := otherSeats named r.cfg.id } := by
  have config := installLog_config (installConfig r)
  have logged := installLog_view (installConfig r)
  have id : (installLog (installConfig r)).cfg.id = r.cfg.id := congrArg View.id logged
  have rebuilt := rebuildPeers_view { installLog (installConfig r) with
      lastApplied := max r.lastApplied r.snapshotRecv.lastIndex
      applyOffered := max r.applyOffered (max r.lastApplied r.snapshotRecv.lastIndex)
      commitIndex := max r.commitIndex (installLog (installConfig r)).log.lastIncludedIndex }
    nodup (config ▸ joint) (config ▸ new) (config ▸ learners)
  have shown : view (installState r) = { view (installLog (installConfig r)) with
      snapshot := r.snapshotRecv
      received := .zero
      installs := false
      seats := otherSeats named (installLog (installConfig r)).cfg.id } :=
    congrArg (fun v : View => { v with
      snapshot := r.snapshotRecv
      received := .zero
      installs := false }) rebuilt
  rw [shown, logged, id]
  rfl

/-- The masks of the snapshot name the voters. -/
theorem installNamed_eq (settled : Settled voters (view r)) (nodup : voters.Nodup)
    (member : r.cfg.id ∈ voters) (old : r.snapshotRecv.cfgOld = voters)
    (new : r.snapshotRecv.cfgNew = voters) :
    raftApplyConfigFromLog (installState r) = (installState r, 0) ∧
      view (installState r) = installedView voters (view r) := by
  have learners : r.snapshotRecv.cfgLearners = [] := settled.received.1
  have some : voters.isEmpty = false := List.isEmpty_eq_false_iff.mpr (List.ne_nil_of_mem member)
  have config : (installConfig r).config = { r.config with
      old := voters
      new := voters
      learners := []
      joint := false } := by
    unfold installConfig
    dsimp only
    rw [old, new, learners, some]
    simp
  have configured : view (installConfig r) = view r := by
    have same : masks (installConfig r) = masks r := by
      have masked : masks r = Masks.settled voters := settled.masks
      obtain ⟨-, -, -, bootstrap, -, pending, stale, idle⟩ := config_eq settled
      rw [masked]
      unfold masks
      rw [config]
      have catchup : (installConfig r).catchup = r.catchup := rfl
      rw [catchup]
      dsimp only
      rw [bootstrap, pending, stale, idle]
      rfl
    calc view (installConfig r) = { view r with masks := masks (installConfig r) } := rfl
      _ = view r := by rw [same]; rfl
  have shown : view (installState r) = installedView voters (view r) := by
    rw [installState_view r nodup (by rw [config]) (by rw [config]) (by rw [config]), configured]
    rfl
  have settled' : Settled voters (view (installState r)) := by
    rw [shown]
    exact settled.install (otherSeats_seated nodup member)
  exact ⟨applyConfig_eq settled', shown⟩

/-- Without masks the configuration is empty for a moment and comes from the log, that
is, from the first voters. -/
theorem installUnnamed_eq (settled : Settled voters (view r))
    (sorted : raftMakeSortedIds voters = some voters) (nodup : voters.Nodup)
    (member : r.cfg.id ∈ voters) (none : r.snapshotRecv.cfgOld = []) :
    ∃ applied, raftApplyConfigFromLog (installState r) = (applied, 0) ∧
      view applied = installedView voters (view r) := by
  have learners : r.snapshotRecv.cfgLearners = [] := settled.received.1
  obtain ⟨-, -, -, bootstrap, -, pending, stale, idle⟩ := config_eq settled
  have config : (installConfig r).config = { r.config with
      old := []
      new := []
      learners := []
      joint := false } := by
    unfold installConfig
    dsimp only
    rw [none, learners]
    rfl
  have emptied : view (installState r) = { installedView voters (view r) with
      masks := ⟨[], [], [], voters, false, false, false, false⟩
      seats := [] } := by
    rw [installState_view r List.nodup_nil (by rw [config]) (by rw [config]) (by rw [config])]
    have masked : masks (installConfig r) = ⟨[], [], [], voters, false, false, false, false⟩ := by
      unfold masks
      rw [config]
      have catchup : (installConfig r).catchup = r.catchup := rfl
      rw [catchup]
      dsimp only
      rw [bootstrap, pending, stale, idle]
    calc _ = { installedView voters (view r) with
        masks := masks (installConfig r)
        seats := [] } := rfl
      _ = _ := by rw [masked]
  have plain : ∀ entry ∈ (installState r).log.entries, entry.kind ≠ entryConfig := by
    have log : (installState r).log = installedLog r.log r.snapshotRecv := congrArg View.log emptied
    rw [log]
    exact fun entry held => settled.plain entry ((installedLog_entries _ _).1 entry held)
  have snapshot : (installState r).snapshot = r.snapshotRecv := congrArg View.snapshot emptied
  have masked : masks (installState r) = ⟨[], [], [], voters, false, false, false, false⟩ :=
    congrArg View.masks emptied
  simp only [masks, Masks.mk.injEq] at masked
  obtain ⟨isOld, isNew, noLearners, isBootstrap, isJoint, isPending, isStale, isIdle⟩ := masked
  have base : baseMasks (installState r) = (voters, voters, []) :=
    baseMasks_named isBootstrap (snapshot ▸ settled.received)
  have other : voters ≠ [] := List.ne_nil_of_mem member
  have assigned : assignMasks (installState r).config voters voters [] =
      some { (installState r).config with
        old := voters
        new := voters
        learners := []
        joint := false
        applyStale := false } := by
    simp [assignMasks, sorted, raftAssignLearnersFiltered]
  refine ⟨rebuildPeers { installState r with config := { (installState r).config with
      old := voters
      new := voters
      learners := []
      joint := false
      applyStale := false } }, ?_, ?_⟩
  · unfold raftApplyConfigFromLog
    rw [configsAbove_nil plain, List.getLast?_nil, base]
    dsimp only
    rw [if_neg (by simp [isOld, other])]
    unfold raftApplyConfigMasks
    rw [noLearners, makeSortedIds_nil]
    dsimp only
    rw [assigned]
  · rw [rebuildPeers_view _ nodup rfl rfl rfl]
    have masked : masks { installState r with config := { (installState r).config with
        old := voters
        new := voters
        learners := []
        joint := false
        applyStale := false } } = Masks.settled voters := by
      unfold masks
      dsimp only
      rw [isBootstrap, isPending, isIdle]
      rfl
    have masks' : masks r = Masks.settled voters := settled.masks
    calc _ = { view (installState r) with
        masks := masks { installState r with config := { (installState r).config with
          old := voters
          new := voters
          learners := []
          joint := false
          applyStale := false } }
        seats := otherSeats voters (view (installState r)).id } := rfl
      _ = { installedView voters (view r) with masks := masks r } := by
        rw [masked, masks', emptied]
        rfl
      _ = installedView voters (view r) := rfl

theorem member_of_settled (settled : Settled voters (view r)) : r.cfg.id ∈ voters :=
  settled.seated.others.mem_iff.mp List.mem_cons_self

theorem installSnapshot_goes (r : Node) (sorted : raftMakeSortedIds voters = some voters)
    (nodup : voters.Nodup) (waits : r.snapshotInstallPending = true) :
    Goes voters saves heard r (installSnapshot r).1 := by
  unfold installSnapshot
  split
  · apply Goes.ease
    intro settled
    exact { eases_refl settled with installs := nofun }
  · constructor
    intro settled own
    have member := member_of_settled settled
    have installed : ∃ applied, raftApplyConfigFromLog (installState r) = (applied, 0) ∧
        view applied = installedView voters (view r) := by
      obtain ⟨-, none | ⟨old, new⟩⟩ : Named voters r.snapshotRecv := settled.received
      · exact installUnnamed_eq settled sorted nodup member none
      · exact ⟨_, installNamed_eq settled nodup member old new⟩
    obtain ⟨applied, made, shown⟩ := installed
    have first : Goes voters saves heard r applied := by
      apply Goes.move
      intro _ _
      rw [shown]
      exact .install waits _ (otherSeats_seated nodup member) otherSeats_fresh
    have dropped : Goes voters saves heard applied (dropStalePending applied) := by
      unfold dropStalePending
      split
      · apply Goes.ease
        intro settled
        exact { eases_refl settled with
          taken := ⟨⟨rfl, .inl rfl⟩, rfl, rfl⟩
          dirty := nofun }
      · exact .refl applied
    have answered : ∀ r, Goes voters saves heard r (answerInstall r) :=
      fun r => .ite (sendMessage_goes r _ _ rfl) (.refl r)
    split
    · rename_i shape
      rw [made] at shape
      cases shape
      exact ((first.trans dropped).trans (answered _)).moves settled own
    · rename_i shape
      rw [made] at shape
      cases shape
      exact first.moves settled own

theorem raftApplyComplete_goes (r : Node) (appliedIndex : Int)
    (sorted : raftMakeSortedIds voters = some voters) (nodup : voters.Nodup) :
    Goes voters saves heard r (raftApplyComplete r appliedIndex).1 := by
  have marked : view (markApplied r appliedIndex) = view r := rfl
  constructor
  intro settled own
  have scanned : applyScan r appliedIndex = (markApplied r appliedIndex, 0, false) := by
    unfold applyScan
    exact scanCommitted_eq (marked ▸ settled) false _ _
  unfold raftApplyComplete
  split
  · exact .refl
  · split
    · rename_i next removed shape
      rw [scanned] at shape
      cases shape
      have due : Goes voters saves heard (markScanned (markApplied r appliedIndex))
          (installIfDue (markScanned (markApplied r appliedIndex)) appliedIndex).1 := by
        unfold installIfDue
        split
        · rename_i waiting
          simp only [installDue, Bool.and_eq_true] at waiting
          exact installSnapshot_goes _ sorted nodup waiting.1
        · exact .refl _
      have installed : Goes voters saves heard r _ := due.after rfl
      split
      · rename_i done installShape
        rw [installShape] at installed
        have retired : Goes voters saves heard done (retireClients done) :=
          (emitResults_goes ..).trans (.of_same rfl)
        exact (installed.trans retired).moves settled own
      · rename_i installShape
        rw [installShape] at installed
        exact installed.moves settled own
    · rename_i shape
      rw [scanned] at shape
      cases shape
      exact .refl

/-! ## Steps of a run -/

/-- The bundle that a round hands out holds messages the node has said. -/
theorem raftReadyConsumed_goes (r : Node) : Goes voters saves heard r (raftReadyConsumed r) := by
  apply Goes.ease
  intro settled
  exact { eases_refl settled with said := fun _ said => absurd said List.not_mem_nil }

end Kynovo.Raft.Conduct
