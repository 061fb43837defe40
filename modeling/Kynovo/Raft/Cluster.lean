import Kynovo.Raft.Ballots
import Kynovo.Raft.Conduct
import Kynovo.Raft.Gate

/-! A cluster of nodes that exchange messages. Every message a node has ever
released stays in flight: it may arrive at any time, any number of times, in
any order, or never. Timers, clients, the disk and the state machine of every
node are free, and no node is restarted. The voters are fixed: no request
changes the membership. -/
namespace Kynovo.Raft.Cluster
open Kynovo.Raft.Stance
open Kynovo.Raft.Conduct
open Kynovo.Raft.Ballots
open Kynovo.Raft.Frame (enterPhase_calm)
open Kynovo.Raft.Vote (leavesInTerm leavesOffice)
open Kynovo.Raft.Gate (raftAdvance_msgs)

/-- `led` is everyone who was seen leading after a step, with the term. -/
structure State where
  run : Int → Run
  led : List (Int × Int)

/-- A message that some voter has released. -/
def State.sent (cluster : State) (voters : List Int) (message : PeerMessage) : Prop :=
  ∃ id ∈ voters, message ∈ (cluster.run id).released

instance (cluster : State) (voters : List Int) (message : PeerMessage) :
    Decidable (cluster.sent voters message) := inferInstanceAs (Decidable (∃ _ ∈ _, _))

/-- One node makes one call. -/
def State.step (cluster : State) (id : Int) (op : Op) : State :=
  let moved := (cluster.run id).step op
  { run := Function.update cluster.run id moved
    led := if moved.node.state = .leader then cluster.led ++ [(id, moved.node.currentTerm)]
      else cluster.led }

/-- What the network and the clients may do: a message that was sent to the node is
delivered to it, a client asks for anything but other members. -/
structure Delivers (voters : List Int) (cluster : State) (id : Int) (op : Op) : Prop where
  member : id ∈ voters
  delivered : ∀ message, op = .recvPeer message → message.target = id ∧ cluster.sent voters message
  keeps : ∀ message, op = .recvClient message → keepsMembers message = true

instance (voters : List Int) (cluster : State) (id : Int) (op : Op) :
    Decidable (Delivers voters cluster id op) :=
  let delivered : Bool := match op with
    | .recvPeer message => decide (message.target = id ∧ cluster.sent voters message)
    | _ => true
  let keeps : Bool := match op with
    | .recvClient message => keepsMembers message
    | _ => true
  decidable_of_iff (id ∈ voters ∧ delivered = true ∧ keeps = true) (by
    constructor
    · rintro ⟨member, isDelivered, isKept⟩
      refine ⟨member, fun message same => ?_, fun message same => ?_⟩
      · subst same
        exact of_decide_eq_true isDelivered
      · subst same
        exact isKept
    · intro delivers
      refine ⟨delivers.member, ?_, ?_⟩
      · cases op with
        | recvPeer message => exact decide_eq_true (delivers.delivered message rfl)
        | _ => rfl
      · cases op with
        | recvClient message => exact delivers.keeps message rfl
        | _ => rfl)

/-- A leader that gives up its office without a newer term still has an entry of its
term at the end of its log. -/
def Admitted (voters : List Int) (cluster : State) (id : Int) (op : Op) : Prop :=
  Delivers voters cluster id op ∧ (leavesInTerm (cluster.run id).node op = true →
    (cluster.run id).node.currentTerm ≤ lastTerm (cluster.run id).node.log)

instance (voters : List Int) (cluster : State) (id : Int) (op : Op) :
    Decidable (Admitted voters cluster id op) := inferInstanceAs (Decidable (_ ∧ _))

/-- The calls by which a snapshot of a node's own is taken or sent. -/
def savesSnapshot : Op → Bool
  | .snapshot => true
  | .snapshotDataReady _ => true
  | .snapshotDataProvided _ _ _ => true
  | _ => false

/-- No node saves a snapshot, so every log goes back to its first entry. -/
def Unsaved (voters : List Int) (cluster : State) (id : Int) (op : Op) : Prop :=
  Delivers voters cluster id op ∧ savesSnapshot op = false

instance (voters : List Int) (cluster : State) (id : Int) (op : Op) :
    Decidable (Unsaved voters cluster id op) := inferInstanceAs (Decidable (_ ∧ _))

/-- The states that steps of one kind lead to. -/
inductive Reaches (may : State → Int → Op → Prop) (config : Int → CreateConfig)
    (voters : List Int) : State → Prop where
  | start {cluster : State}
      (created : ∀ id ∈ voters, Run.start (config id) = some (cluster.run id))
      (none : cluster.led = []) : Reaches may config voters cluster
  | step {cluster : State} {id : Int} {op : Op} (reached : Reaches may config voters cluster)
      (passes : may cluster id op) : Reaches may config voters (cluster.step id op)

/-- Every node is created with the same voters, and with nothing restored. -/
structure Members (config : Int → CreateConfig) (voters : List Int) : Prop where
  id : ∀ id ∈ voters, (config id).id = id
  peers : ∀ id ∈ voters, raftMakeSortedIds (config id).peers = some voters
  restore : ∀ id ∈ voters, (config id).restore = none

section
variable (may : State → Int → Op → Prop) [∀ cluster id op, Decidable (may cluster id op)]

/-- The steps are taken as long as each may be. -/
def State.through (cluster : State) : List (Int × Op) → Option State
  | [] => some cluster
  | (id, op) :: rest =>
    if may cluster id op then State.through (cluster.step id op) rest else none

theorem Reaches.through {config : Int → CreateConfig} {voters : List Int} {cluster final : State}
    {steps : List (Int × Op)} (reached : Reaches may config voters cluster)
    (passed : cluster.through may steps = some final) : Reaches may config voters final := by
  induction steps generalizing cluster with
  | nil =>
    cases passed
    exact reached
  | cons step rest ih =>
    unfold State.through at passed
    split at passed
    · rename_i passes
      exact ih (reached.step passes) passed
    · cases passed

end

variable {config : Int → CreateConfig} {voters : List Int} {saves : Prop} {cluster : State} {record : Record}
  {sent sent' : PeerMessage → Prop} {nodes : Int → View}

/-! ## Voters -/

theorem sortedIds_shape {ids sorted : List Int} (made : raftMakeSortedIds ids = some sorted) :
    raftMakeSortedIds sorted = some sorted ∧ sorted.Nodup ∧ (∀ id ∈ sorted, 0 < id) ∧
      ids.Perm sorted := by
  have perm := List.perm_insertionSort (· ≤ ·) ids
  unfold raftMakeSortedIds at made ⊢
  dsimp only at made ⊢
  split at made
  · rename_i checked
    cases made
    have again : (ids.insertionSort (· ≤ ·)).insertionSort (· ≤ ·) = ids.insertionSort (· ≤ ·) :=
      (List.pairwise_insertionSort (· ≤ ·) ids).insertionSort_eq
    rw [again, if_pos checked]
    simp only [Bool.and_eq_true, List.all_eq_true, decide_eq_true_eq] at checked
    refine ⟨rfl, checked.2, fun id held => ?_, perm.symm⟩
    simpa [raftIdValid] using checked.1 id held
  · cases made

/-! ## The start -/

theorem view_start {cfg : CreateConfig} {run : Run} (fresh : cfg.restore = none)
    (peers : raftMakeSortedIds cfg.peers = some voters) (member : cfg.id ∈ voters)
    (started : Run.start cfg = some run) :
    view run.node = view (freshNode cfg voters) ∧ run.released = [] := by
  have some : cfg.peers ≠ [] := by
    have perm := (sortedIds_shape peers).2.2.2
    exact List.ne_nil_of_mem (perm.mem_iff.mpr member)
  unfold Run.start raftCreate at started
  rw [fresh] at started
  simp only [Option.map_eq_some_iff] at started
  obtain ⟨node, created, rfl⟩ := started
  split at created
  · cases created
  · simp only [bootstrapVoters, List.isEmpty_eq_false_iff.mpr some, Bool.false_eq_true, if_false,
      peers, restoreFrom, Option.bind_eq_bind, Option.bind_some] at created
    obtain ⟨created, found, made⟩ := Option.bind_eq_some_iff.mp created
    split at found
    · cases found
      cases made
      exact ⟨rfl, rfl⟩
    · cases found

theorem fresh_settled {cfg : CreateConfig} (peers : raftMakeSortedIds cfg.peers = some voters)
    (member : cfg.id ∈ voters) : Settled voters (view (freshNode cfg voters)) where
  masks := rfl
  seated := by
    obtain ⟨-, nodup, -, perm⟩ := sortedIds_shape peers
    constructor
    · have ids : (view (freshNode cfg voters)).seats.map Seat.id =
          cfg.peers.filter (· ≠ cfg.id) := by
        simp [view, freshNode, Function.comp_def, seat]
      rw [ids]
      have others : cfg.peers.filter (· ≠ cfg.id) = cfg.peers.erase cfg.id := by
        rw [(perm.nodup_iff.mpr nodup).erase_eq_filter]
        simp [bne, decide_not]
        rfl
      rw [others]
      exact (List.perm_cons_erase (perm.mem_iff.mpr member)).symm.trans perm
    · intro held isHeld
      simp only [view, freshNode, List.map_map, List.mem_map] at isHeld
      obtain ⟨id, -, rfl⟩ := isHeld
      exact ⟨rfl, rfl⟩
  plain := nofun
  snapshot := named_zero voters
  taken := named_zero voters
  received := named_zero voters
  started := le_refl _
  bounded := ⟨nofun, le_refl _, le_refl _, le_refl _, le_refl _⟩
  standing := nofun
  leading := nofun
  answer := nofun
  fair := fun _ said => absurd said List.not_mem_nil

/-- Nobody has voted and nobody has led. -/
def Record.blank : Record := ⟨fun _ _ => 0, fun _ _ => False⟩

theorem fresh_accounted {cfg : CreateConfig} (peers : raftMakeSortedIds cfg.peers = some voters)
    (member : cfg.id ∈ voters) :
    Accounted voters Record.blank cfg.id (view (freshNode cfg voters)) where
  id := rfl
  settled := fresh_settled peers member
  vote := fun voted => absurd rfl voted
  future := fun _ _ => rfl
  reached := fun _ led => led.elim
  spent := fun voted => absurd rfl voted
  ballots := nofun
  leads := nofun
  said := fun _ said => absurd said List.not_mem_nil

/-! ## One step -/

theorem fair_of_light {message : PeerMessage} (light : weighty message = false) :
    Fair voters message ∧ Backed record message := by
  unfold weighty at light
  unfold Fair Backed
  cases shape : message.rpc with
  | requestVote rpc =>
    simp only [shape, Bool.not_eq_false'] at light
    refine ⟨fun real => ?_, trivial⟩
    rw [light] at real
    cases real
  | requestVoteResult result =>
    simp only [shape] at light
    refine ⟨trivial, fun granted real => ?_⟩
    simp [granted, real] at light
  | appendEntries rpc => simp [shape] at light
  | installSnapshot rpc => simp [shape] at light
  | _ => exact ⟨trivial, trivial⟩

/-- What a node has said may be sent, and what nothing rests on. -/
theorem sound_release {p : Int} (sound : Sound voters nodes sent record) (member : p ∈ voters)
    (more : ∀ message, sent' message →
      sent message ∨ (weighty message = true → message ∈ (nodes p).said)) :
    Sound voters nodes sent' record where
  nodes := sound.nodes
  won := sound.won
  sent := fun message given => by
    rcases more message given with old | said
    · exact sound.sent message old
    · cases heavy : weighty message with
      | false => exact fair_of_light heavy
      | true =>
        have held := said heavy
        have accounted := sound.nodes p member
        exact ⟨(accounted.settled.fair message held).2, accounted.said message held⟩

/-- What the node hears in a call. -/
def hears (op : Op) (message : PeerMessage) : Prop := op = .recvPeer message

section
variable (sorted : raftMakeSortedIds voters = some voters) (nodup : voters.Nodup)
include sorted nodup

/-- The calls that hand out nothing. -/
theorem call_goes (r : Node) (op : Op) (fair : ∀ message, hears op message → Fair voters message)
    (keeps : ∀ message, op = .recvClient message → keepsMembers message = true)
    (allowed : savesSnapshot op = true → saves) :
    Goes voters saves (hears op) r (call r op) := by
  cases op with
  | recvPeer message =>
    have given : hears (.recvPeer message) message := rfl
    exact raftRecvfromPeer_goes given (fair message given) r sorted
  | recvClient message => exact raftRecvfromClient_goes r message (keeps message rfl)
  | applyComplete appliedIndex => exact raftApplyComplete_goes r appliedIndex sorted nodup
  | snapshot => exact raftSnapshot_goes r (allowed rfl)
  | snapshotDataReady totalSize => exact raftSnapshotDataReady_goes r totalSize
  | snapshotDataProvided followerId byteOffset size =>
    exact raftSnapshotDataProvided_goes r followerId byteOffset size (allowed rfl) nodup
  | stop => exact raftStop_goes r
  | advance elapsedMs => exact .refl r
  | complete => exact .refl r

omit sorted in
/-- The node when a round of the caller comes to the clocks. -/
def readied (r : Node) (elapsedMs : Nat) : Node := advanceReplies (enterPhase r) elapsedMs

omit sorted in
theorem readied_goes (r : Node) (elapsedMs : Nat) : Goes voters saves heard r (readied r elapsedMs) :=
  (enterPhase_goes r).trans (advanceReplies_goes _ elapsedMs nodup)

omit sorted in
/-- A round of the caller, up to the bundle. -/
theorem advance_goes (r : Node) (elapsedMs : Nat)
    (ends : leavesInTerm r (.advance elapsedMs) = true → (readied r elapsedMs).state = .leader →
      (readied r elapsedMs).currentTerm ≤ lastTerm (readied r elapsedMs).log) :
    Goes voters saves heard r (raftAdvance r elapsedMs).1 := by
  constructor
  intro settled own
  refine (raftAdvance_goes r elapsedMs nodup (fun leader reached leaves => ?_)).moves settled own
  have ready : Goes voters saves heard r (readied r elapsedMs) := readied_goes nodup r elapsedMs
  have settled' := ((ready.moves settled own).settled settled own.ne').1
  exact tickState_ends _ settled' reached (ends (by simp [leavesInTerm, reached, leaves]))

end

/-- The node after a call, before the caller has consumed the bundle it was handed. -/
def handing (run : Run) : Op → Node
  | .advance elapsedMs => (raftAdvance run.node elapsedMs).1
  | .complete => (settleFirst run).node
  | op => call run.node op

/-- What a step releases is what the node has said by then. -/
theorem step_released (run : Run) (op : Op) : ∀ message ∈ (run.step op).released,
    message ∈ run.released ∨ message ∈ (handing run op).msgs := by
  intro message released
  cases op with
  | advance elapsedMs =>
    rcases List.mem_append.mp released with old | handed
    · exact .inl old
    · exact .inr (raftAdvance_msgs run.node elapsedMs message handed)
  | complete =>
    unfold Run.step settleFirst at released
    dsimp only at released
    split at released
    · exact .inl released
    · exact .inl released
  | _ => exact .inl released

theorem step_consumed {heard : PeerMessage → Prop} (run : Run) (op : Op) :
    Goes voters saves heard (handing run op) (run.step op).node := by
  cases op with
  | advance elapsedMs => exact raftReadyConsumed_goes _
  | _ => exact .refl _

theorem settleFirst_goes {heard : PeerMessage → Prop} (run : Run) :
    Goes voters saves heard run.node (settleFirst run).node := by
  unfold settleFirst
  split
  · exact .refl _
  · exact completeView_goes _ _

/-- What is said of the end of a leader's log where it matters. -/
def EndsWell (voters : List Int) (r : Node) (op : Op) : Prop :=
  Settled voters (view r) → 0 < r.cfg.id → ∀ elapsedMs, op = .advance elapsedMs →
    leavesInTerm r op = true → (readied r elapsedMs).state = .leader →
      (readied r elapsedMs).currentTerm ≤ lastTerm (readied r elapsedMs).log

theorem handing_goes {id : Int} {op : Op} (members : Members config voters)
    (delivers : Delivers voters cluster id op) (allowed : savesSnapshot op = true → saves)
    (ends : EndsWell voters (cluster.run id).node op)
    (fair : ∀ message, hears op message → Fair voters message) :
    Goes voters saves (hears op) (cluster.run id).node (handing (cluster.run id) op) := by
  obtain ⟨sorted, nodup, -, -⟩ := sortedIds_shape (members.peers id delivers.member)
  cases op with
  | advance elapsedMs =>
    constructor
    intro settled own
    exact (advance_goes nodup _ elapsedMs (ends settled own elapsedMs rfl)).moves settled own
  | complete => exact settleFirst_goes _
  | _ => exact call_goes sorted nodup _ _ fair delivers.keeps allowed

theorem step_sent {id : Int} {op : Op} {message : PeerMessage}
    (given : (cluster.step id op).sent voters message) :
    cluster.sent voters message ∨ message ∈ (handing (cluster.run id) op).msgs := by
  obtain ⟨sender, isVoter, held⟩ := given
  unfold State.step at held
  dsimp only at held
  cases decEq sender id with
  | isTrue same =>
    subst same
    rw [Function.update_self] at held
    exact (step_released _ op message held).imp_left (fun old => ⟨sender, isVoter, old⟩)
  | isFalse other =>
    rw [Function.update_of_ne other] at held
    exact .inl ⟨sender, isVoter, held⟩

def views (cluster : State) : Int → View := fun id => view (cluster.run id).node

theorem step_views (cluster : State) (id : Int) (op : Op) (between : View) :
    Function.update (Function.update (views cluster) id between) id
      (view ((cluster.run id).step op).node) = views (cluster.step id op) := by
  funext other
  rw [Function.update_idem]
  unfold views State.step
  dsimp only
  cases decEq other id with
  | isTrue same =>
    subst same
    rw [Function.update_self, Function.update_self]
  | isFalse different => rw [Function.update_of_ne different, Function.update_of_ne different]

/-- What holds of the views and the messages at every time. -/
structure Lasting (voters : List Int) (saves : Prop)
    (holds : (Int → View) → (PeerMessage → Prop) → Prop) : Prop where
  sound : ∀ {nodes sent}, holds nodes sent → ∃ record, Sound voters nodes sent record
  moves : ∀ {nodes sent heard p v'}, holds nodes sent → p ∈ voters →
    Moves voters saves heard (nodes p) v' →
      (∀ message, heard message → sent message ∧ message.target = p) →
        holds (Function.update nodes p v') sent
  release : ∀ {nodes sent sent' p}, holds nodes sent → p ∈ voters →
    (∀ message, sent' message →
      sent message ∨ (weighty message = true → message ∈ (nodes p).said)) → holds nodes sent'

/-- What lasts through the moves of one node at a time lasts through a step. -/
theorem Lasting.step {holds : (Int → View) → (PeerMessage → Prop) → Prop}
    (lasting : Lasting voters saves holds) {id : Int} {op : Op} (members : Members config voters)
    (delivers : Delivers voters cluster id op) (allowed : savesSnapshot op = true → saves)
    (ends : EndsWell voters (cluster.run id).node op)
    (now : holds (views cluster) (cluster.sent voters)) :
    holds (views (cluster.step id op)) ((cluster.step id op).sent voters) := by
  obtain ⟨record, sound⟩ := lasting.sound now
  have member := delivers.member
  have positive := (sortedIds_shape (members.peers id member)).2.2.1
  have accounted := sound.nodes id member
  have own : 0 < (cluster.run id).node.cfg.id := by
    have same : (cluster.run id).node.cfg.id = id := accounted.id
    rw [same]
    exact positive id member
  have delivered : ∀ message, hears op message →
      cluster.sent voters message ∧ message.target = id := fun message given =>
    ⟨(delivers.delivered message given).2, (delivers.delivered message given).1⟩
  have moves : Moves voters saves (hears op) (view (cluster.run id).node)
      (view (handing (cluster.run id) op)) :=
    (handing_goes members delivers allowed ends (fun message given =>
      (sound.sent message (delivered message given).1).1)).moves accounted.settled own
  have after := lasting.moves now member moves delivered
  -- what is handed out was said before the bundle is consumed
  have handed : holds (Function.update (views cluster) id (view (handing (cluster.run id) op)))
      ((cluster.step id op).sent voters) := by
    refine lasting.release after member (fun message given => ?_)
    refine (step_sent given).imp_right (fun said heavy => ?_)
    rw [Function.update_self]
    exact List.mem_filter.mpr ⟨said, heavy⟩
  obtain ⟨settled, kept⟩ := moves.settled accounted.settled own.ne'
  have own' : 0 < (handing (cluster.run id) op).cfg.id := by
    have same : (handing (cluster.run id) op).cfg.id = (cluster.run id).node.cfg.id := kept
    rw [same]
    exact own
  have consumed : Moves voters saves (fun _ => False) (view (handing (cluster.run id) op))
      (view ((cluster.run id).step op).node) := (step_consumed _ op).moves settled own'
  rw [← Function.update_self id (view (handing (cluster.run id) op)) (views cluster)] at consumed
  have final := lasting.moves handed member consumed nofun
  rw [step_views] at final
  exact final

/-- The record of a cluster covers what was seen. -/
def Recorded (voters : List Int) (led : List (Int × Int)) (nodes : Int → View)
    (sent : PeerMessage → Prop) : Prop :=
  ∃ record, Sound voters nodes sent record ∧ ∀ seen ∈ led, record.led seen.1 seen.2

theorem recorded_lasts (positive : ∀ q ∈ voters, 0 < q) (led : List (Int × Int)) :
    Lasting voters saves (Recorded voters led) where
  sound := fun ⟨record, sound, _⟩ => ⟨record, sound⟩
  moves := fun ⟨record, sound, seen⟩ member moves delivered => by
    obtain ⟨grown, more, after⟩ := sound.moves positive member moves delivered
    exact ⟨grown, after, fun item held => more _ _ (seen item held)⟩
  release := fun ⟨record, sound, seen⟩ member more =>
    ⟨record, sound_release sound member more, seen⟩

/-- Who leads after a step is on the record. -/
theorem led_after {id : Int} {op : Op} (member : id ∈ voters)
    (sound : Sound voters (views (cluster.step id op)) sent record)
    (before : ∀ item ∈ cluster.led, record.led item.1 item.2) :
    ∀ item ∈ (cluster.step id op).led, record.led item.1 item.2 := by
  intro item held
  unfold State.step at held
  dsimp only at held
  split at held
  · rename_i leads
    rcases List.mem_append.mp held with old | now
    · exact before item old
    · rw [List.mem_singleton.mp now]
      have here := sound.nodes id member
      unfold views State.step at here
      dsimp only at here
      rw [Function.update_self] at here
      exact here.leads leads
  · exact before item held

theorem start_views (members : Members config voters)
    (created : ∀ id ∈ voters, Run.start (config id) = some (cluster.run id)) :
    (∀ id ∈ voters, views cluster id = view (freshNode (config id) voters)) ∧
      ∀ message, ¬ cluster.sent voters message := by
  have started : ∀ id ∈ voters, view (cluster.run id).node = view (freshNode (config id) voters) ∧
      (cluster.run id).released = [] := fun id member =>
    view_start (members.restore id member) (members.peers id member)
      (by rw [members.id id member]; exact member) (created id member)
  refine ⟨fun id member => (started id member).1, fun message given => ?_⟩
  obtain ⟨id, member, held⟩ := given
  rw [(started id member).2] at held
  cases held

theorem sound_start (members : Members config voters)
    (created : ∀ id ∈ voters, Run.start (config id) = some (cluster.run id)) :
    Sound voters (views cluster) (cluster.sent voters) Record.blank := by
  obtain ⟨same, silent⟩ := start_views members created
  refine ⟨fun id member => ?_, fun _ _ led => led.elim, fun message given => (silent _ given).elim⟩
  rw [same id member]
  have accounted := fresh_accounted (members.peers id member)
    (by rw [members.id id member]; exact member)
  rwa [members.id id member] at accounted

theorem Admitted.endsWell {id : Int} {op : Op} (admitted : Admitted voters cluster id op) :
    EndsWell voters (cluster.run id).node op := by
  intro _ _ elapsedMs _ leaves _
  have timed := advanceReplies_log (enterPhase (cluster.run id).node) elapsedMs
  have entered := enterPhase_calm (cluster.run id).node
  unfold readied
  rw [timed.1, timed.2, entered.log, entered.currentTerm]
  exact admitted.2 leaves

theorem Members.positive (members : Members config voters) : ∀ q ∈ voters, 0 < q :=
  fun q member => (sortedIds_shape (members.peers q member)).2.2.1 q member

theorem recorded_of_reached (members : Members config voters)
    (reached : Reaches (Admitted voters) config voters cluster) :
    Recorded voters cluster.led (views cluster) (cluster.sent voters) := by
  induction reached with
  | start created none =>
    refine ⟨Record.blank, sound_start members created, ?_⟩
    rw [none]
    exact nofun
  | step _ admitted ih =>
    obtain ⟨record, sound, seen⟩ := (recorded_lasts members.positive _).step members admitted.1
      (fun _ => trivial) admitted.endsWell ih
    exact ⟨record, sound, led_after admitted.1.member sound seen⟩

/-- Election safety: no two nodes are ever seen leading in the same term. -/
theorem one_leader_a_term (members : Members config voters)
    (reached : Reaches (Admitted voters) config voters cluster) {i j term : Int} (first : (i, term) ∈ cluster.led) (second : (j, term) ∈ cluster.led) : i = j := by
  obtain ⟨record, sound, seen⟩ := recorded_of_reached members reached
  exact sound.won.unique (seen _ first) (seen _ second)

/-! Three voters; node 1 is elected in term 1 with the vote of node 2. -/

def trio (id : Int) : CreateConfig := ⟨id, [1, 2, 3], false, 10, 100, 200, 7, 1024, 4, none⟩

def created (config : Int → CreateConfig) : State where
  run := fun id => (Run.start (config id)).getD ⟨freshNode (config id) [], [], [], [], []⟩
  led := []

def electionSteps : List (Int × Op) :=
  [(1, .advance 0), (2, .advance 0), (2, .advance 100), (1, .advance 250),
    (2, .recvPeer ⟨1, 2, .requestVote ⟨0, 0, 0, 1, true⟩⟩), (2, .advance 0),
    (1, .recvPeer ⟨2, 1, .requestVoteResult ⟨0, true, true⟩⟩), (1, .advance 0), (1, .complete),
    (1, .advance 0), (2, .recvPeer ⟨1, 2, .requestVote ⟨1, 0, 0, 1, false⟩⟩), (2, .advance 0),
    (2, .complete), (2, .advance 0), (1, .recvPeer ⟨2, 1, .requestVoteResult ⟨1, true, false⟩⟩)]

theorem trio_members : Members trio [1, 2, 3] := by
  constructor
  · exact fun _ _ => rfl
  · intro id _
    show raftMakeSortedIds [1, 2, 3] = some [1, 2, 3]
    decide
  · exact fun _ _ => rfl

theorem trio_starts (may : State → Int → Op → Prop) :
    Reaches may trio [1, 2, 3] (created trio) :=
  .start (fun id member => by
    have known : id = 1 ∨ id = 2 ∨ id = 3 := by simpa using member
    rcases known with rfl | rfl | rfl <;> rfl) rfl

theorem trio_elects_one : ∃ cluster, Reaches (Admitted [1, 2, 3]) trio [1, 2, 3] cluster ∧
    (1, 1) ∈ cluster.led ∧ ∀ j, (j, 1) ∈ cluster.led → j = 1 := by
  have tested : ((created trio).through (Admitted [1, 2, 3]) electionSteps).any
      (fun final => decide ((1, 1) ∈ final.led)) = true := by decide +kernel
  obtain ⟨final, passed, led⟩ := (Option.any_eq_true _ _).mp tested
  have isLed := of_decide_eq_true led
  have reached := (trio_starts (Admitted [1, 2, 3])).through _ passed
  exact ⟨final, reached, isLed, fun j second =>
    one_leader_a_term trio_members reached second isLed⟩

end Kynovo.Raft.Cluster
