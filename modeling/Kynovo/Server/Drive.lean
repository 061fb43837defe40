import Kynovo.Raft.Owed

/-! The server's loop around its node. A round takes a Ready bundle, posts its
view to the WAL worker and runs the live half of the bundle: entries are applied
to the tree, clients get their results and the node is told what was applied. A
node without a voting peer starts no round while a write is in flight, and a
bundle with a view has its live half put off until the view is on disk. A
failed write or a failed report ends the server, so no run continues from there.
-/
namespace Kynovo.Server.Drive
open Kynovo.Raft
open Kynovo.Wal.Record

/-- An entry handed out to be applied, with the client that waits for it. -/
structure Offered where
  cookie : Nat
  index : Int
  term : Int
deriving DecidableEq

/-- A Ready bundle with the log it was assembled from. `offered` is what clients
wait for in this bundle and in all before it. -/
structure ReadyBundle where
  ready : Ready
  log : Log
  offered : List Offered

/-- The entries a bundle applies. -/
def entriesOf (log : Log) (applies : List ApplyEntry) : List Offered :=
  applies.filterMap (fun item =>
    (log.entryAt item.index).map (fun entry => ⟨item.cookie, item.index, entry.term⟩))

def ReadyBundle.entries (bundle : ReadyBundle) : List Offered := entriesOf bundle.log bundle.ready.applies

/-- A view with the WAL worker, and the live half that waits for it. -/
structure Posted where
  view : Persist
  live : Option ReadyBundle

/-- A live half that was run: whether the node had a voter peer then and was the
only voter of its configuration, which views were on disk, and what was applied
and answered. -/
structure Effect where
  voterPeer : Bool
  sole : Bool
  disk : List Persist
  applied : List Offered
  results : List ClientResult
  offered : List Offered

/-- `gaps` are the boundaries of views that left out entries no earlier view
holds. -/
structure Server where
  run : Run
  posted : List Posted
  gaps : List Int
  offered : List Offered
  effects : List Effect
  stopping : Bool

/-- No other node votes in the configuration. -/
def soleVoter (r : Node) : Bool := (r.config.old ++ r.config.new).all (· == r.cfg.id)

/-- The node has no voter peer, by its peer table or by its configuration. -/
def alone (r : Node) : Bool := !raftHasVoterPeer r || soleVoter r

def Effect.alone (effect : Effect) : Bool := !effect.voterPeer || effect.sole

/-! ## The live half -/

/-- What a live half meets outside its bundle: whether the waiting snapshot is
loaded, the requests that the handled results lead to, and the pieces of a
snapshot that were read. -/
structure LiveInput where
  install : Bool
  clients : List ClientMessage
  chunks : List (Int × Int × Nat)

def sendClients (run : Run) (clients : List ClientMessage) : Run :=
  clients.foldl (fun run msg => run.step (.recvClient msg)) run

def provideChunks (run : Run) (chunks : List (Int × Int × Nat)) : Run :=
  chunks.foldl (fun run chunk => run.step (.snapshotDataProvided chunk.1 chunk.2.1 chunk.2.2)) run

def reportApplied (run : Run) (idx : Option Int) : Run :=
  match idx with
  | none => run
  | some idx => run.step (.applyComplete idx)

def ReadyBundle.appliedIndex (bundle : ReadyBundle) : Option Int :=
  bundle.ready.applies.getLast?.map ApplyEntry.index

def ReadyBundle.installIndex (bundle : ReadyBundle) (input : LiveInput) : Option Int :=
  if bundle.ready.snapshotInstallNeeded && input.install then some bundle.ready.snapshotLastIndex
  else none

def kServerProcessBundleLive (s : Server) (disk : List Persist) (bundle : ReadyBundle)
    (input : LiveInput) : Server :=
  let asked := sendClients s.run input.clients
  let applied := reportApplied asked bundle.appliedIndex
  let installed := reportApplied applied (bundle.installIndex input)
  { s with
    run := provideChunks installed input.chunks
    effects := s.effects ++ [⟨raftHasVoterPeer s.run.node, soleVoter s.run.node, disk,
      bundle.entries, bundle.ready.results, bundle.offered⟩] }

/-! ## Rounds and completions -/

/-- The view names a snapshot and leaves out entries that no earlier view
holds. -/
def leavesOut (r : Node) (emitted : List Persist) (view : Persist) : Bool :=
  ((persistEntries r.log (r.persistSyncedIndex + 1)).filter
    (fun entry => decide (entry.index ≤ view.lastIncludedIndex))).any
    (fun entry => (handedAt emitted entry.index).map content != some (content entry))

/-- The server takes the bundle. An automatic replacement of a voter is asked for
in between. -/
def takeReady (run : Run) (advanced : Node × Ready) (replace : List ClientMessage) : Run :=
  let views := advanced.2.persist.toList
  { run with
    node := raftReadyConsumed (replace.foldl (fun r msg => (raftRecvfromClient r msg).1) advanced.1)
    inflight := run.inflight ++
      views.map (fun view => ⟨view, skipsNothing advanced.1 run.emitted view⟩)
    emitted := run.emitted ++ views
    released := run.released ++ advanced.2.msgs }

/-- The bundle of a round. -/
def Server.bundle (s : Server) (elapsedMs : Nat) : ReadyBundle :=
  let advanced := raftAdvance s.run.node elapsedMs
  { ready := advanced.2
    log := advanced.1.log
    offered := s.offered ++
      (entriesOf advanced.1.log advanced.2.applies).filter (fun item => item.cookie ≠ 0) }

def Server.liveDeferred (s : Server) (elapsedMs : Nat) (replace : List ClientMessage) : Bool :=
  let advanced := raftAdvance s.run.node elapsedMs
  advanced.2.persist.isSome && !raftHasVoterPeer (takeReady s.run advanced replace).node

/-- The write that carries the view of a round. -/
def Server.post (s : Server) (elapsedMs : Nat) (replace : List ClientMessage) (view : Persist) :
    Posted :=
  ⟨view, if s.liveDeferred elapsedMs replace then some (s.bundle elapsedMs) else none⟩

/-- The server after it took the bundle, before the live half. -/
def Server.taken (s : Server) (elapsedMs : Nat) (replace : List ClientMessage) : Server :=
  let advanced := raftAdvance s.run.node elapsedMs
  { s with
    run := takeReady s.run advanced replace
    posted := s.posted ++ advanced.2.persist.toList.map (s.post elapsedMs replace)
    gaps := s.gaps ++ (advanced.2.persist.toList.filter (leavesOut advanced.1 s.run.emitted)).map
      Persist.lastIncludedIndex
    offered := (s.bundle elapsedMs).offered }

/-- A round is run unless the WAL holds it back. -/
def Server.mayAdvance (s : Server) (walInflightMax : Nat) : Bool :=
  (raftHasVoterPeer s.run.node || s.posted.isEmpty) && decide (s.posted.length < walInflightMax)

def kServerDrive (s : Server) (elapsedMs walInflightMax : Nat) (replace : List ClientMessage)
    (input : LiveInput) : Server :=
  if !s.mayAdvance walInflightMax then s
  else
    let taken := s.taken elapsedMs replace
    if s.liveDeferred elapsedMs replace then taken
    else kServerProcessBundleLive taken taken.run.completed (s.bundle elapsedMs) input

/-- A view is on disk and the node is not told: the server is stopping. -/
def storeFirst (run : Run) : Run :=
  match run.inflight with
  | [] => run
  | handed :: rest =>
    { run with
      inflight := rest
      completed := run.completed ++ [handed.view] }

/-- The live half that waited for a view, if there is one. -/
def Server.lived (s : Server) (posted : Posted) (input : LiveInput) : Server :=
  match posted.live with
  | none => s
  | some bundle => kServerProcessBundleLive s (s.run.completed ++ [posted.view]) bundle input

/-- The oldest write completes. -/
def kServerPollWal (s : Server) (input : LiveInput) : Server :=
  match s.posted with
  | [] => s
  | first :: rest =>
    let lived := s.lived first input
    { lived with
      posted := rest
      run := if s.stopping then storeFirst lived.run else settleFirst lived.run }

/-! ## Runs -/

inductive Event where
  | recvPeer (msg : PeerMessage)
  | recvClient (msg : ClientMessage)
  | snapshot
  | snapshotDataReady (totalSize : Int)
  | stop
  | drive (elapsedMs walInflightMax : Nat) (replace : List ClientMessage) (input : LiveInput)
  | persisted (input : LiveInput)

def Server.step (s : Server) : Event → Server
  | .recvPeer msg => { s with run := s.run.step (.recvPeer msg) }
  | .recvClient msg => { s with run := s.run.step (.recvClient msg) }
  | .snapshot => { s with run := s.run.step .snapshot }
  | .snapshotDataReady totalSize => { s with run := s.run.step (.snapshotDataReady totalSize) }
  | .stop =>
    { s with
      run := s.run.step .stop
      stopping := true }
  | .drive elapsedMs walInflightMax replace input =>
    kServerDrive s elapsedMs walInflightMax replace input
  | .persisted input => kServerPollWal s input

def Server.start (cfg : CreateConfig) : Option Server :=
  (Run.start cfg).map (fun run => ⟨run, [], [], [], [], false⟩)

/-- The runs whose events all meet a condition on the state before them. -/
inductive Serves (cond : Server → Event → Prop) (cfg : CreateConfig) : Server → Prop where
  | start {s : Server} (started : Server.start cfg = some s) : Serves cond cfg s
  | step {s : Server} {event : Event} (served : Serves cond cfg s) (meets : cond s event) :
      Serves cond cfg (s.step event)

/-- The events happen as long as each meets the condition. -/
def Server.through (cond : Server → Event → Prop) [∀ s event, Decidable (cond s event)] (s : Server) :
    List Event → Option Server
  | [] => some s
  | event :: rest => if cond s event then Server.through cond (s.step event) rest else none

theorem Serves.through {cond : Server → Event → Prop} [∀ s event, Decidable (cond s event)]
    {cfg : CreateConfig} {events : List Event} {s final : Server} (served : Serves cond cfg s)
    (passed : s.through cond events = some final) : Serves cond cfg final := by
  induction events generalizing s with
  | nil =>
    cases passed
    exact served
  | cons event rest ih =>
    unfold Server.through at passed
    split at passed
    · rename_i meets
      exact ih (served.step meets) passed
    · cases passed

/-- A run that passes its checks reaches a state with a property that was
computed. -/
theorem Serves.exists_of_through (cond : Server → Event → Prop)
    [∀ s event, Decidable (cond s event)] (cfg : CreateConfig) (test : Server → Bool)
    (events : List Event)
    (passed : ((Server.start cfg).bind (·.through cond events)).any test = true) :
    ∃ s, Serves cond cfg s ∧ test s = true := by
  obtain ⟨final, given, tested⟩ := (Option.any_eq_true _ _).mp passed
  obtain ⟨first, started, through⟩ := Option.bind_eq_some_iff.mp given
  exact ⟨final, (Serves.start started).through through, tested⟩

end Kynovo.Server.Drive
