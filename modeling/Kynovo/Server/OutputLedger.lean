import Kynovo.Lib.Runs
import Kynovo.Server.Replacement

/-! What becomes of everything the node puts into its output buffers. A ledger beside the
server notes what every call puts there and every bundle that a round takes. Consuming a
bundle empties the buffers as a whole, and between the assembly of the bundle and that
moment the server may call its node again to replace a voter. -/
namespace Kynovo.Server.OutputLedger
open Kynovo.Lib.Runs
open Kynovo.Raft
open Kynovo.Raft.OutputFrame
open Kynovo.Server.Drive hiding Event
open Kynovo.Server.Replacement

structure Ledger where
  server : Server
  watch : Watch
  results : List ClientResult
  msgs : List PeerMessage
  bundles : List Ready

inductive Event where
  | recvPeer (msg : PeerMessage)
  | recvClient (msg : ClientMessage)
  | snapshot
  | snapshotDataReady (totalSize : Int)
  | stop
  | drive (round : Round)
  | persisted (live : LiveInput) (removal : Option Nat)

/-- What was put behind the content of the buffers. -/
def Ledger.note (ledger : Ledger) (before after : Node) : Ledger :=
  { ledger with
    results := ledger.results ++ after.results.drop before.results.length
    msgs := ledger.msgs ++ (lastingMsgs after).drop (lastingMsgs before).length }

/-- The round has something to hand out; otherwise no bundle is made of it. -/
def hasWork (advanced : Node × Ready) (leaderChange : Bool) : Bool :=
  !advanced.2.applies.isEmpty || !advanced.2.results.isEmpty || !advanced.2.msgs.isEmpty ||
    !advanced.2.snapReads.isEmpty || advanced.2.persist.isSome || leaderChange ||
    (advanced.1.snapshotPendingDirty && advanced.1.snapshotDataReadyFlag) ||
    advanced.1.snapshotInstallPending || advanced.2.phaseStopped

section Rounds
variable (replacement : AutoReplace) (ledger : Ledger) (round : Round)

/-- What `raft_advance` returns in the round. -/
def Ledger.advanced : Node × Ready := raftAdvance ledger.server.run.node round.elapsedMs

/-- What an automatic replacement asks for after the bundle was assembled. -/
def Ledger.replacing : Asks × Watch :=
  kServerAutoReplace replacement round (ledger.advanced round).1
    (ledger.watch.led round.leaderChange (ledger.advanced round).1)

/-- The node whose buffers the round empties. -/
def Ledger.consumed : Node :=
  if hasWork (ledger.advanced round) round.leaderChange then
    asked (ledger.advanced round).1 ((ledger.replacing replacement round).1.messages round.cookie)
  else (ledger.advanced round).1

/-- The bundle of the round. -/
def Ledger.bundled : List Ready :=
  if hasWork (ledger.advanced round) round.leaderChange then [(ledger.advanced round).2] else []

/-- The server after the round. -/
def Ledger.driven : Server :=
  if hasWork (ledger.advanced round) round.leaderChange then
    kServerDrive ledger.server round.elapsedMs round.walInflightMax
      ((ledger.replacing replacement round).1.messages round.cookie) round.live
  else
    { ledger.server with run.node := raftReadyConsumed (ledger.advanced round).1 }

/-- What the server knows after the round. A live half that waits for the disk tells it
later. -/
def Ledger.learned : Watch :=
  if hasWork (ledger.advanced round) round.leaderChange then
    if ledger.server.liveDeferred round.elapsedMs
        ((ledger.replacing replacement round).1.messages round.cookie) then
      (ledger.replacing replacement round).2
    else
      (ledger.replacing replacement round).2.live replacement.enabled (ledger.advanced round).2
        round.removal
  else ledger.watch

def Ledger.drive : Ledger :=
  if ledger.server.mayAdvance round.walInflightMax then
    let taken := ledger.note ledger.server.run.node (ledger.advanced round).1
    let asked := taken.note (ledger.advanced round).1 (ledger.consumed replacement round)
    let lived := asked.note (raftReadyConsumed (ledger.consumed replacement round))
      (ledger.driven replacement round).run.node
    { lived with
      server := ledger.driven replacement round
      watch := ledger.learned replacement round
      bundles := ledger.bundles ++ ledger.bundled round }
  else ledger

end Rounds

/-- The oldest write completes, and a live half that waited for it is run. -/
def Ledger.persisted (replacement : AutoReplace) (ledger : Ledger) (live : LiveInput)
    (removal : Option Nat) : Ledger :=
  let after := kServerPollWal ledger.server live
  { ledger.note ledger.server.run.node after.run.node with
    server := after
    watch :=
      match ledger.server.posted.head?.bind Posted.live with
      | none => ledger.watch
      | some bundle => ledger.watch.live replacement.enabled bundle.ready removal }

/-- A call that is no round. -/
def Ledger.called (ledger : Ledger) (event : Drive.Event) : Ledger :=
  let after := ledger.server.step event
  { ledger.note ledger.server.run.node after.run.node with server := after }

def Ledger.step (replacement : AutoReplace) (ledger : Ledger) : Event → Ledger
  | .recvPeer msg => ledger.called (.recvPeer msg)
  | .recvClient msg => ledger.called (.recvClient msg)
  | .snapshot => ledger.called .snapshot
  | .snapshotDataReady totalSize => ledger.called (.snapshotDataReady totalSize)
  | .stop => ledger.called .stop
  | .drive round => ledger.drive replacement round
  | .persisted live removal => ledger.persisted replacement live removal

/-- The voters that a server knows at its start: those of its snapshot, else all nodes of
its address book. -/
def startVoters (cfg : CreateConfig) (book : List Int) : List Int :=
  match cfg.restore with
  | none => book
  | some p => if p.snapshotCfgNew.isEmpty then book else p.snapshotCfgNew

/-- A new server, with what its creation put into the buffers. -/
def Ledger.start (cfg : CreateConfig) (book : List Int) : Option Ledger :=
  (Server.start cfg).map fun s =>
    ⟨s, ⟨false, startVoters cfg book, .idle, 0, 0, 0, []⟩, s.run.node.results,
      lastingMsgs s.run.node, []⟩

/-- The replacement of a round does not ask for what the node answers at once. -/
def unanswered (replacement : AutoReplace) (ledger : Ledger) : Event → Bool
  | .drive round =>
    let asks := (ledger.replacing replacement round).1
    !ledger.server.mayAdvance round.walInflightMax ||
      !hasWork (ledger.advanced round) round.leaderChange ||
      !asks.change.any (answersAtOnce (asked (ledger.advanced round).1 asks.published) round.cookie)
  | _ => true

/-- The runs in which no replacement asks for what is answered at once. -/
def Reached (replacement : AutoReplace) (cfg : CreateConfig) (book : List Int) : Ledger → Prop :=
  Reaches (fun ledger => Ledger.start cfg book = some ledger) (Ledger.step replacement)
    (fun ledger event => unanswered replacement ledger event = true)

/-! ## Calls -/

/-- A stopped node does nothing any more. -/
structure Calls (r r' : Node) : Prop extends Grows r r' where
  still : r.phase = .stopped → r' = r

theorem Calls.refl (r : Node) : Calls r r := ⟨.refl r, fun _ => rfl⟩

theorem Calls.trans {a b c : Node} (first : Calls a b) (second : Calls b c) : Calls a c := by
  refine ⟨first.toGrows.trans second.toGrows, ?_⟩
  intro stopped
  have same := first.still stopped
  rw [same] at second
  exact second.still stopped

theorem call_calls (r : Node) (op : Op) : Calls r (call r op) := by
  cases op with
  | recvPeer msg =>
    refine ⟨raftRecvfromPeer_grows r msg, fun stopped => ?_⟩
    simp [call, raftRecvfromPeer, stopped]
  | recvClient msg =>
    refine ⟨raftRecvfromClient_grows r msg, fun stopped => ?_⟩
    cases msg with
    | submit commands =>
      simp only [call, raftRecvfromClient, raftSubmit, stopped]
      split <;> rfl
    | barrier cookie => simp [call, raftRecvfromClient, raftBarrier, stopped]
    | reconfig cookie ids => simp [call, raftRecvfromClient, raftReconfig, stopped]
    | addLearner cookie learnerId =>
      simp [call, raftRecvfromClient, raftAddLearner, learnerChangeRefused, stopped]
    | removeLearner cookie learnerId =>
      simp [call, raftRecvfromClient, raftRemoveLearner, learnerChangeRefused, stopped]
    | transfer cookie targetId => simp [call, raftRecvfromClient, raftTransfer, stopped]
  | advance elapsedMs => exact .refl r
  | complete => exact .refl r
  | applyComplete appliedIndex =>
    refine ⟨raftApplyComplete_grows r appliedIndex, fun stopped => ?_⟩
    simp [call, raftApplyComplete, Node.completing, stopped]
  | snapshot =>
    refine ⟨?_, fun stopped => ?_⟩
    · simp only [call, raftSnapshot]
      split
      · exact .refl r
      · split
        · exact .of_same rfl
        · exact .of_same rfl
    · simp [call, raftSnapshot, stopped]
  | snapshotDataReady totalSize =>
    refine ⟨?_, fun stopped => ?_⟩
    · simp only [call, raftSnapshotDataReady]
      split
      · exact .refl r
      · exact .of_same rfl
    · simp [call, raftSnapshotDataReady, stopped]
  | snapshotDataProvided followerId byteOffset size =>
    refine ⟨raftSnapshotDataProvided_grows r followerId byteOffset size, fun stopped => ?_⟩
    simp [call, raftSnapshotDataProvided, stopped]
  | stop =>
    refine ⟨raftStop_grows r, fun stopped => ?_⟩
    simp [call, raftStop, stopped]

theorem completeView_calls (r : Node) (view : Wal.Record.Persist) :
    Calls r (completeView r view) := by
  refine ⟨completeView_grows r view, fun stopped => ?_⟩
  simp [completeView, raftPersistComplete, raftSnapshotPersistComplete, Node.completing, stopped]

theorem foldl_calls {α : Type} (op : α → Op) (items : List α) (run : Run)
    (plain : ∀ (run : Run) (item : α), (run.step (op item)).node = call run.node (op item)) :
    Calls run.node (items.foldl (fun run item => run.step (op item)) run).node := by
  induction items generalizing run with
  | nil => exact .refl _
  | cons item rest ih =>
    have first : Calls run.node (run.step (op item)).node := by
      rw [plain]
      exact call_calls ..
    exact first.trans (ih _)

theorem reportApplied_calls (run : Run) (idx : Option Int) :
    Calls run.node (reportApplied run idx).node := by
  cases idx with
  | none => exact .refl _
  | some idx => exact call_calls run.node (.applyComplete idx)

/-- The live half of a bundle. -/
theorem live_calls (s : Server) (disk : List Wal.Record.Persist) (bundle : ReadyBundle)
    (input : LiveInput) :
    Calls s.run.node (kServerProcessBundleLive s disk bundle input).run.node := by
  have asked : Calls s.run.node (sendClients s.run input.clients).node :=
    foldl_calls .recvClient input.clients s.run fun _ _ => rfl
  have applied := reportApplied_calls (sendClients s.run input.clients) bundle.appliedIndex
  have installed := reportApplied_calls (reportApplied (sendClients s.run input.clients)
    bundle.appliedIndex) (bundle.installIndex input)
  have chunks := foldl_calls (fun chunk : Int × Int × Nat =>
    .snapshotDataProvided chunk.1 chunk.2.1 chunk.2.2) input.chunks
    (reportApplied (reportApplied (sendClients s.run input.clients) bundle.appliedIndex)
      (bundle.installIndex input)) fun _ _ => rfl
  exact ((asked.trans applied).trans installed).trans chunks

theorem pollWal_calls (s : Server) (input : LiveInput) :
    Calls s.run.node (kServerPollWal s input).run.node := by
  unfold kServerPollWal
  split
  · exact .refl _
  · rename_i first rest _
    have lived : Calls s.run.node (s.lived first input).run.node := by
      unfold Server.lived
      split
      · exact .refl _
      · exact live_calls ..
    have stored : (storeFirst (s.lived first input).run).node = (s.lived first input).run.node := by
      unfold storeFirst
      split <;> rfl
    have settled : Calls (s.lived first input).run.node
        (settleFirst (s.lived first input).run).node := by
      unfold settleFirst
      split
      · exact .refl _
      · exact completeView_calls ..
    dsimp only
    split
    · rw [stored]
      exact lived
    · exact lived.trans settled

/-! ## The ledger -/

/-- Everything that was put is in a bundle or still waits, in order; a stopped node has
nothing that waits. -/
structure Balanced (ledger : Ledger) : Prop where
  results : ledger.results =
    ledger.bundles.flatMap Ready.results ++ ledger.server.run.node.results
  msgs : ledger.msgs =
    (ledger.bundles.flatMap Ready.msgs).filter (fun message => !isAppend message) ++
      lastingMsgs ledger.server.run.node
  idle : ledger.server.run.node.phase = .stopped →
    ledger.server.run.node.results = [] ∧ ledger.server.run.node.msgs = [] ∧
      ledger.server.run.node.snapReads = []

theorem append_drop_of_grown {α : Type} {before after : List α} (grown : before <+: after)
    (front : List α) : (front ++ before) ++ after.drop before.length = front ++ after := by
  obtain ⟨new, rfl⟩ := grown
  rw [List.drop_left, List.append_assoc]

theorem advanceOutput_output (r : Node) (phaseStopped : Bool) :
    (advanceOutput r phaseStopped).1.results = (advanceOutput r phaseStopped).2.results ∧
      (advanceOutput r phaseStopped).1.msgs = (advanceOutput r phaseStopped).2.msgs ∧
      (advanceOutput r phaseStopped).1.snapReads = (advanceOutput r phaseStopped).2.snapReads :=
  ⟨rfl, rfl, rfl⟩

/-- The buffers of the state from which a bundle was assembled are the bundle's. -/
theorem raftAdvance_output {r : Node} (elapsedMs : Nat)
    (idle : r.phase = .stopped → r.results = [] ∧ r.msgs = [] ∧ r.snapReads = []) :
    (raftAdvance r elapsedMs).1.results = (raftAdvance r elapsedMs).2.results ∧
      (raftAdvance r elapsedMs).1.msgs = (raftAdvance r elapsedMs).2.msgs ∧
      (raftAdvance r elapsedMs).1.snapReads = (raftAdvance r elapsedMs).2.snapReads := by
  unfold raftAdvance
  dsimp only
  split
  · unfold advanceDrain
    dsimp only
    split
    · exact advanceOutput_output ..
    · exact advanceOutput_output ..
  · rename_i stopped
    have before : r.phase = .stopped := (enterPhase_grows r).stays stopped
    have same : enterPhase r = r := by
      unfold enterPhase
      rw [before]
    rw [same]
    exact idle before
  · exact advanceOutput_output ..

theorem Balanced.call {ledger after : Ledger} (balanced : Balanced ledger) {server : Server}
    (calls : Calls ledger.server.run.node server.run.node) (serves : after.server = server)
    (notes : after.results = (ledger.note ledger.server.run.node server.run.node).results ∧
      after.msgs = (ledger.note ledger.server.run.node server.run.node).msgs)
    (bundles : after.bundles = ledger.bundles) : Balanced after := by
  obtain ⟨results, msgs⟩ := notes
  refine ⟨?_, ?_, ?_⟩
  · rw [results, Ledger.note, balanced.results, bundles, serves]
    exact append_drop_of_grown calls.results _
  · rw [msgs, Ledger.note, balanced.msgs, bundles, serves]
    exact append_drop_of_grown calls.msgs _
  · rw [serves]
    intro stopped
    have before := calls.stays stopped
    rw [calls.still before]
    exact balanced.idle before

section Rounds
variable {replacement : AutoReplace} {ledger : Ledger} {round : Round}

/-- The replacement leaves the buffers as the bundle has them. -/
theorem consumed_output (keeps : unanswered replacement ledger (.drive round) = true)
    (runs : ledger.server.mayAdvance round.walInflightMax = true) :
    output (ledger.consumed replacement round) = output (ledger.advanced round).1 := by
  unfold Ledger.consumed
  split
  · rename_i works
    refine asked_output fun ids wanted => ?_
    have later : ((ledger.replacing replacement round).1.change.any (answersAtOnce (asked
        (ledger.advanced round).1 (ledger.replacing replacement round).1.published)
        round.cookie)) = false := by
      simpa [unanswered, runs, works] using keeps
    rw [Option.mem_def.mp wanted] at later
    exact later
  · rfl

/-- The bundle of a round is all that the buffers hold then. -/
theorem bundled_output (balanced : Balanced ledger) (round : Round) :
    (ledger.bundled round).flatMap Ready.results = (ledger.advanced round).1.results ∧
      (ledger.bundled round).flatMap Ready.msgs = (ledger.advanced round).1.msgs ∧
      (ledger.bundled round).flatMap Ready.snapReads = (ledger.advanced round).1.snapReads := by
  obtain ⟨results, msgs, reads⟩ := raftAdvance_output round.elapsedMs balanced.idle
  rw [Ledger.advanced, results, msgs, reads]
  unfold Ledger.bundled
  split
  · simp [Ledger.advanced]
  · rename_i idle
    simp only [hasWork, Ledger.advanced, Bool.or_eq_true, Bool.not_eq_true', not_or,
      Bool.not_eq_false, List.isEmpty_iff] at idle
    obtain ⟨⟨⟨⟨⟨⟨⟨⟨-, noResult⟩, noMsg⟩, noRead⟩, -⟩, -⟩, -⟩, -⟩, -⟩ := idle
    rw [noResult, noMsg, noRead]
    exact ⟨rfl, rfl, rfl⟩

theorem driven_calls (runs : ledger.server.mayAdvance round.walInflightMax = true) :
    Calls (raftReadyConsumed (ledger.consumed replacement round))
      (ledger.driven replacement round).run.node := by
  unfold Ledger.consumed Ledger.driven
  split
  · rename_i works
    let messages := (ledger.replacing replacement round).1.messages round.cookie
    have taken : (ledger.server.taken round.elapsedMs messages).run.node =
        raftReadyConsumed (asked (ledger.advanced round).1 messages) := rfl
    rw [← taken]
    simp only [kServerDrive, runs, Bool.not_true, Bool.false_eq_true, if_false]
    split
    · exact .refl _
    · exact live_calls ..
  · exact .refl _

theorem Balanced.drive (balanced : Balanced ledger)
    (keeps : unanswered replacement ledger (.drive round) = true) :
    Balanced (ledger.drive replacement round) := by
  unfold Ledger.drive
  split
  · rename_i runs
    obtain ⟨outResults, outMsgs, -⟩ := bundled_output balanced round
    obtain ⟨results, rest⟩ := Prod.mk.inj (consumed_output keeps runs)
    have msgs := (Prod.mk.inj rest).1
    have puts : Puts ledger.server.run.node (ledger.advanced round).1 :=
      raftAdvance_puts ledger.server.run.node round.elapsedMs
    have waiting : lastingMsgs (ledger.consumed replacement round) =
        lastingMsgs (ledger.advanced round).1 := by
      rw [lastingMsgs, lastingMsgs, msgs]
    refine ⟨?_, ?_, ?_⟩
    · simp only [Ledger.note, List.flatMap_append, outResults, results, List.drop_length,
        List.append_nil, balanced.results]
      rw [append_drop_of_grown puts.results]
      simp [raftReadyConsumed]
    · simp only [Ledger.note, List.flatMap_append, List.filter_append, outMsgs, waiting,
        List.drop_length, List.append_nil, balanced.msgs]
      rw [append_drop_of_grown puts.msgs]
      simp [raftReadyConsumed, lastingMsgs]
    · have lived : Calls (raftReadyConsumed (ledger.consumed replacement round))
          (ledger.driven replacement round).run.node := driven_calls runs
      intro stopped
      have before := lived.stays stopped
      change (ledger.driven replacement round).run.node.results = [] ∧ _
      rw [lived.still before]
      exact ⟨rfl, rfl, rfl⟩
  · exact balanced

end Rounds

/-! ## Runs -/

theorem restoreNode_stays {r restored : Node} {p : Wal.Record.Persist}
    (done : restoreNode r p = some restored) (stopped : restored.phase = .stopped) :
    r.phase = .stopped := by
  unfold restoreNode at done
  split at done
  · cases done
  · simp only [Option.bind_eq_bind, Option.bind_eq_some_iff] at done
    obtain ⟨voted, votersDone, learned, learnersDone, log, -, applied⟩ := done
    have voters : voted.phase = r.phase := by
      unfold restoreVoters at votersDone
      split at votersDone
      · cases votersDone
        rfl
      · simp only [Option.bind_eq_bind, Option.bind_eq_some_iff] at votersDone
        obtain ⟨old, -, new, -, made⟩ := votersDone
        cases made
        rfl
    have learners : learned.phase = voted.phase := by
      unfold restoreLearners at learnersDone
      split at learnersDone
      · cases learnersDone
        rfl
      · simp only [Option.bind_eq_bind, Option.bind_eq_some_iff] at learnersDone
        obtain ⟨masks, -, made⟩ := learnersDone
        cases made
        rfl
    have config := raftApplyConfigFromLog_grows { learned with
      log := log
      durableIndex := raftLogLastIndex log
      durableConfirm := raftLogLastIndex log
      persistSyncedIndex := raftLogLastIndex log }
    split at applied
    · rename_i final shape
      rw [shape] at config
      cases applied
      have before := config.stays ((rebuildPeers_grows final).stays stopped)
      exact voters.symm.trans (learners.symm.trans before)
    · cases applied

/-- A new node is not stopped. -/
theorem raftCreate_phase {cfg : CreateConfig} {r : Node} (created : raftCreate cfg = some r) :
    r.phase ≠ .stopped := by
  intro stopped
  unfold raftCreate at created
  split at created
  · cases created
  · simp only [Option.bind_eq_bind, Option.bind_eq_some_iff] at created
    obtain ⟨voters, -, restored, done, made⟩ := created
    cases made
    cases given : cfg.restore with
    | none =>
      rw [given] at done
      cases done
      cases stopped
    | some p =>
      rw [given] at done
      cases restoreNode_stays done stopped

theorem Balanced.start {cfg : CreateConfig} {book : List Int} {ledger : Ledger}
    (starts : Ledger.start cfg book = some ledger) : Balanced ledger := by
  obtain ⟨s, started, rfl⟩ := Option.map_eq_some_iff.mp starts
  refine ⟨rfl, rfl, ?_⟩
  intro stopped
  simp only [Server.start, Run.start, Option.map_eq_some_iff] at started
  obtain ⟨run, ⟨node, created, rfl⟩, rfl⟩ := started
  exact absurd stopped (raftCreate_phase created)

theorem Balanced.called {ledger : Ledger} (balanced : Balanced ledger) {event : Drive.Event}
    (calls : Calls ledger.server.run.node (ledger.server.step event).run.node) :
    Balanced (ledger.called event) := balanced.call calls rfl ⟨rfl, rfl⟩ rfl

theorem Balanced.step {replacement : AutoReplace} {ledger : Ledger} (balanced : Balanced ledger)
    (event : Event) (keeps : unanswered replacement ledger event = true) :
    Balanced (ledger.step replacement event) := by
  cases event with
  | recvPeer msg => exact balanced.called (call_calls _ (.recvPeer msg))
  | recvClient msg => exact balanced.called (call_calls _ (.recvClient msg))
  | snapshot => exact balanced.called (call_calls _ .snapshot)
  | snapshotDataReady totalSize =>
    exact balanced.called (call_calls _ (.snapshotDataReady totalSize))
  | stop => exact balanced.called (call_calls _ .stop)
  | drive round => exact balanced.drive keeps
  | persisted live removal =>
    exact balanced.call (pollWal_calls ledger.server live) rfl ⟨rfl, rfl⟩ rfl

def trio : CreateConfig := ⟨1, [1, 2, 3], false, 10, 100, 200, 7, 1024, 4, none⟩

def nothingElse : LiveInput := ⟨true, [], []⟩

def round (elapsedMs : Nat) (leaderChange : Bool) : Event :=
  .drive ⟨elapsedMs, 4, leaderChange, 1, [9], true, 9, nothingElse, none⟩

def stored : Event := .persisted nothingElse none

def vote (sender term : Int) (preVote : Bool) : Event :=
  .recvPeer ⟨sender, 1, .requestVoteResult ⟨term, true, preVote⟩⟩

def ack (sender term last : Int) : Event :=
  .recvPeer ⟨sender, 1, .appendEntriesResult ⟨term, 0, last, 0, 0, 0, true⟩⟩

/-- Node 1 leads with node 2, writes for a client, and asks for node 4 when node 3 has
missed three rounds. -/
def replacing : List Event :=
  [round 300 true, vote 2 0 true, round 0 false, stored, vote 2 1 false, round 0 true, stored,
    ack 2 1 1, round 0 false, .recvClient (.submit [⟨7, [1]⟩]), round 0 false, stored,
    ack 2 1 2, round 10 false, ack 2 1 2, round 10 false]

/-- Node 1 after a restart: node 4 is a voter by its log, which it has not applied yet, and
none by its address book. -/
def restarted : CreateConfig := ⟨1, [1, 2, 3], false, 10, 100, 200, 7, 1024, 4, some {
  term := 1
  votedFor := 1
  lastIncludedIndex := 0
  lastIncludedTerm := 0
  snapshotDirty := false
  snapshotSize := 0
  snapshotCfgOld := []
  snapshotCfgNew := []
  snapshotCfgLearners := []
  logEntries := [⟨1, 1, entryNoop, [], [], [], []⟩,
    ⟨2, 1, entryConfig, [1, 2, 3], [1, 2, 3, 4], [], []⟩,
    ⟨3, 1, entryConfig, [1, 2, 3, 4], [1, 2, 3, 4], [], []⟩] }⟩

end Kynovo.Server.OutputLedger
