import Kynovo.Lib.Runs
import Kynovo.Server.Drive
import Kynovo.Store.Ownership

/-! A snapshot is installed over the live tree, and a local save reads a captured view of
that tree. The server keeps the two apart by its snapshot flag: a save sets it, and a round
skips an install while it is set. The capture itself is closed by the result of the save. -/
namespace Kynovo.Server.OpenCapture
open Kynovo.Raft
open Kynovo.Server.Drive
open Kynovo.Store.Ownership

/-- A snapshot file handed to the loader, and the tree it was to replace. -/
structure Load where
  forest : Forest
  file : Option (Option Nat)

/-- The server with its tree. `stops` tells which of the bundles with the WAL worker are the
last of their node. -/
structure Host where
  server : Drive.Server
  forest : Forest
  stops : List Bool
  snapshotInflight : Bool
  snapshotTask : Bool
  raftStopped : Bool
  fatal : Bool
  loads : List Load

/-- What a live half meets: the changes its commands make, the file of the snapshot that
waits, and what else the node is told. -/
structure Work where
  changes : List Change
  file : Option (Option Nat)
  clients : List ClientMessage
  chunks : List (Int × Int × Nat)

/-- The waiting snapshot is installed unless the flag is set. -/
def Host.installs (s : Host) (work : Work) : Bool :=
  !s.snapshotInflight && (treapLoad (s.forest.changes work.changes).tree work.file).isSome

def Host.liveInput (s : Host) (work : Work) : LiveInput :=
  ⟨s.installs work, work.clients, work.chunks⟩

/-- The part of a live half that the tree sees; the node's part is the driver's own. -/
def kServerProcessBundleLive (s : Host) (installNeeded : Bool) (work : Work) : Host :=
  let forest := s.forest.changes work.changes
  if installNeeded && !s.snapshotInflight then
    { s with
      forest := { forest with tree := (treapLoad forest.tree work.file).getD forest.tree }
      fatal := (treapLoad forest.tree work.file).isNone
      loads := s.loads ++ [⟨forest, work.file⟩] }
  else { s with forest := forest }

/-- The last bundle of a node releases the flag unless the worker still has a save. -/
def kServerProcessBundlePersist (s : Host) (phaseStopped : Bool) : Host :=
  if phaseStopped then
    { s with
      raftStopped := true
      snapshotInflight := s.snapshotInflight && s.snapshotTask }
  else s

def kServerDrive (s : Host) (elapsedMs walInflightMax : Nat) (replace : List ClientMessage)
    (work : Work) : Host :=
  if !s.server.mayAdvance walInflightMax then s
  else
    let ready := (raftAdvance s.server.run.node elapsedMs).2
    let lived := if s.server.liveDeferred elapsedMs replace then s
      else kServerProcessBundleLive s ready.snapshotInstallNeeded work
    let driven := { lived with
      server := Drive.kServerDrive s.server elapsedMs walInflightMax replace (s.liveInput work) }
    match ready.persist with
    | some _ => { driven with stops := s.stops ++ [ready.phaseStopped] }
    | none => kServerProcessBundlePersist driven ready.phaseStopped

/-- Any record that carries a snapshot releases the flag. -/
def kServerPollWal (s : Host) (work : Work) : Host :=
  match s.server.posted with
  | [] => s
  | first :: _ =>
    let lived := match first.live with
      | none => s
      | some bundle => kServerProcessBundleLive s bundle.ready.snapshotInstallNeeded work
    let stored := { lived with
      server := Drive.kServerPollWal s.server (s.liveInput work)
      stops := s.stops.tail }
    let settled := kServerProcessBundlePersist stored (s.stops.headD false)
    if first.view.snapshotDirty then { settled with snapshotInflight := false } else settled

/-- A save may start: it is due by the policy on entries, segments and bytes, and no other
is on its way. -/
def Host.maySave (s : Host) (due : Bool) : Bool :=
  !s.server.stopping && !s.snapshotInflight && !s.snapshotTask && due

/-- The tree is captured before the save is handed to the worker, whose queue may not take
it. -/
def kServerMaybeSnapshot (s : Host) (due taken : Bool) : Host :=
  if !s.maySave due then s
  else
    let asked := { s with server := s.server.step .snapshot }
    if (raftSnapshot s.server.run.node).2 = 0 then
      let captured := { asked with
        forest := { s.forest with tree := treapCapture s.forest.tree } }
      if taken then
        { captured with
          snapshotTask := true
          snapshotInflight := true }
      else captured
    else asked

/-- The result of a save closes the capture, whatever it says. -/
def kServerPollSnapshot (s : Host) (ok : Bool) (size : Int) : Host :=
  if !s.snapshotTask then s
  else
    let finished := { s with
      snapshotTask := false
      forest := { s.forest with tree := treapSaveFinish s.forest.tree } }
    if s.server.stopping || s.raftStopped then { finished with snapshotInflight := false }
    else if ok then
      let told := { finished with server := s.server.step (.snapshotDataReady size) }
      if (raftSnapshotDataReady s.server.run.node size).2 = 0 then told
      else { told with snapshotInflight := false }
    else { finished with snapshotInflight := false }

/-- A command of a client runs on a working copy that is dropped before the reply. -/
def kServerExecCmd (s : Host) (ops : List TreapOp) : Host :=
  { s with forest := s.forest.change (.transaction ops false) }

inductive Event where
  | recvPeer (msg : PeerMessage)
  | recvClient (msg : ClientMessage)
  | execCmd (ops : List TreapOp)
  | maybeSnapshot (due taken : Bool)
  | saved (ok : Bool) (size : Int)
  | stop
  | drive (elapsedMs walInflightMax : Nat) (replace : List ClientMessage) (work : Work)
  | persisted (work : Work)

/-- A fatal error ends the server. -/
def Host.step (s : Host) (event : Event) : Host :=
  if s.fatal then s
  else match event with
    | .recvPeer msg => { s with server := s.server.step (.recvPeer msg) }
    | .recvClient msg => { s with server := s.server.step (.recvClient msg) }
    | .execCmd ops => kServerExecCmd s ops
    | .maybeSnapshot due taken => kServerMaybeSnapshot s due taken
    | .saved ok size => kServerPollSnapshot s ok size
    | .stop => { s with server := s.server.step .stop }
    | .drive elapsedMs walInflightMax replace work =>
      kServerDrive s elapsedMs walInflightMax replace work
    | .persisted work => kServerPollWal s work

/-- The restored tree is loaded before the server runs. -/
def Host.start (cfg : CreateConfig) (root : Option Nat) : Option Host :=
  (Drive.Server.start cfg).map fun server =>
    { server
      forest := ⟨{ treapCreate with live := ⟨root, []⟩ }, []⟩
      stops := []
      snapshotInflight := false
      snapshotTask := false
      raftStopped := false
      fatal := false
      loads := [] }

/-! ## Where flag and capture part -/

/-- The oldest write with the WAL worker carries a snapshot. -/
def Host.completesSnapshot (s : Host) : Bool :=
  s.server.posted.head?.any (fun first => first.view.snapshotDirty)

/-- No record with a snapshot completes while the worker has a save, and the worker's queue
takes every save that is captured. -/
def Keeps (s : Host) : Event → Prop
  | .persisted _ => s.completesSnapshot = true → s.snapshotTask = false
  | .maybeSnapshot due taken =>
    s.maySave due = true → (raftSnapshot s.server.run.node).2 = 0 → taken = true
  | _ => True

instance (s : Host) (event : Event) : Decidable (Keeps s event) :=
  match event with
  | .persisted _ => inferInstanceAs (Decidable (_ → _))
  | .maybeSnapshot due _ => inferInstanceAs (Decidable (s.maySave due = true → _ → _))
  | .recvPeer _ => isTrue trivial
  | .recvClient _ => isTrue trivial
  | .execCmd _ => isTrue trivial
  | .saved _ _ => isTrue trivial
  | .stop => isTrue trivial
  | .drive _ _ _ _ => isTrue trivial

/-! ## The capture under the flag -/

/-- A tree that no capture and no working copy holds on to. -/
structure Free (f : Forest) : Prop where
  root : f.tree.snap.root = none
  retired : f.tree.snap.pendingFree = []
  txn : f.tree.txn = false
  forks : f.forks = []

/-- Every load met a free tree, and only an unreadable file was turned down. -/
structure Clean (load : Load) : Prop where
  free : Free load.forest
  readable : treapLoad load.forest.tree load.file = none → load.file = none

structure Guarded (s : Host) : Prop where
  txn : s.forest.tree.txn = false
  forks : s.forest.forks = []
  covered : s.forest.tree.snap = ⟨none, []⟩ ∨ (s.snapshotTask = true ∧ s.snapshotInflight = true)
  loads : ∀ load ∈ s.loads, Clean load
  fatal : s.fatal = true → ∃ load ∈ s.loads, load.file = none

theorem Free.refuses {f : Forest} (free : Free f) : f.tree.refuses = false := by
  unfold Treap.refuses
  rw [free.root, free.retired, free.txn]
  rfl

theorem Free.load {f : Forest} (free : Free f) (file : Option (Option Nat)) :
    treapLoad f.tree file = file.map (fun root =>
      { f.tree with live := ⟨root, []⟩, snap := ⟨none, []⟩ }) := by
  unfold treapLoad
  rw [free.refuses]
  rfl

/-- The commands of a bundle change nothing that the invariant is about. -/
theorem Guarded.changes {s : Host} (guarded : Guarded s) (changes : List Change) :
    Guarded { s with forest := s.forest.changes changes } := by
  have same := changes_untouched s.forest changes
  refine ⟨same.txn.trans guarded.txn, same.forks.trans guarded.forks, ?_, guarded.loads,
    guarded.fatal⟩
  rw [same.snap]
  exact guarded.covered

/-- With the flag clear the tree is free. -/
theorem Guarded.free {s : Host} (guarded : Guarded s) (clear : s.snapshotInflight = false) :
    Free s.forest := by
  rcases guarded.covered with closed | ⟨-, set⟩
  · exact ⟨congrArg TreapState.root closed, congrArg TreapState.pendingFree closed, guarded.txn, guarded.forks⟩
  · exact Bool.noConfusion (clear.symm.trans set)

theorem live_guarded {s : Host} (guarded : Guarded s) (installNeeded : Bool) (work : Work) :
    Guarded (kServerProcessBundleLive s installNeeded work) := by
  have changed := guarded.changes work.changes
  unfold kServerProcessBundleLive
  dsimp only
  split
  · rename_i install
    have clear : s.snapshotInflight = false := by
      simpa using (Bool.and_eq_true_iff.mp install).2
    have free : Free (s.forest.changes work.changes) := changed.free clear
    have loaded := free.load work.file
    rw [loaded]
    have noted : ∀ load ∈ s.loads ++ [⟨s.forest.changes work.changes, work.file⟩], Clean load := by
      intro load member
      rcases List.mem_append.mp member with old | new
      · exact guarded.loads load old
      · cases List.mem_singleton.mp new
        exact ⟨free, fun refused => by simpa [loaded] using refused⟩
    cases shape : work.file with
    | none =>
      rw [shape] at noted
      exact ⟨changed.txn, changed.forks, changed.covered, noted, fun _ =>
        ⟨⟨s.forest.changes work.changes, none⟩, List.mem_append_right _ List.mem_cons_self, rfl⟩⟩
    | some root =>
      rw [shape] at noted
      exact ⟨changed.txn, changed.forks, .inl rfl, noted, fun failed => Bool.noConfusion failed⟩
  · exact changed

/-- The end of a node leaves a flag alone that a capture depends on. -/
theorem persist_guarded {s : Host} (guarded : Guarded s) (phaseStopped : Bool) :
    Guarded (kServerProcessBundlePersist s phaseStopped) := by
  unfold kServerProcessBundlePersist
  split
  · refine ⟨guarded.txn, guarded.forks, ?_, guarded.loads, guarded.fatal⟩
    rcases guarded.covered with closed | ⟨task, set⟩
    · exact .inl closed
    · exact .inr ⟨task, Bool.and_eq_true_iff.mpr ⟨set, task⟩⟩
  · exact guarded

/-- What the driver does to the node and which writes it posts do not matter. -/
theorem Guarded.driven {s : Host} (guarded : Guarded s) (server : Drive.Server)
    (stops : List Bool) :
    Guarded { s with
      server := server
      stops := stops } :=
  ⟨guarded.txn, guarded.forks, guarded.covered, guarded.loads, guarded.fatal⟩

theorem drive_guarded {s : Host} (guarded : Guarded s) (elapsedMs walInflightMax : Nat)
    (replace : List ClientMessage) (work : Work) :
    Guarded (kServerDrive s elapsedMs walInflightMax replace work) := by
  unfold kServerDrive
  split
  · exact guarded
  · dsimp only
    have lived : Guarded (if s.server.liveDeferred elapsedMs replace then s
        else kServerProcessBundleLive s
          (raftAdvance s.server.run.node elapsedMs).2.snapshotInstallNeeded work) := by
      split
      · exact guarded
      · exact live_guarded guarded _ work
    split
    · exact lived.driven _ _
    · exact persist_guarded (lived.driven _ _) _

theorem persisted_guarded {s : Host} {work : Work} (guarded : Guarded s)
    (keeps : Keeps s (.persisted work)) : Guarded (kServerPollWal s work) := by
  unfold kServerPollWal
  split
  · exact guarded
  · rename_i first rest shape
    dsimp only
    generalize livedEq : (match first.live with
      | none => s
      | some bundle => kServerProcessBundleLive s bundle.ready.snapshotInstallNeeded work) = lived
    have alive : Guarded lived ∧ lived.snapshotTask = s.snapshotTask := by
      subst livedEq
      split
      · exact ⟨guarded, rfl⟩
      · refine ⟨live_guarded guarded _ work, ?_⟩
        unfold kServerProcessBundleLive
        dsimp only
        split
        · rfl
        · rfl
    have settled := persist_guarded (alive.1.driven (Drive.kServerPollWal s.server (s.liveInput work))
      s.stops.tail) (s.stops.headD false)
    split
    · rename_i dirty
      have completes : s.completesSnapshot = true := by
        unfold Host.completesSnapshot
        rw [shape]
        exact dirty
      have idle : s.snapshotTask = false := keeps completes
      refine ⟨settled.txn, settled.forks, .inl ?_, settled.loads, settled.fatal⟩
      rcases settled.covered with closed | ⟨task, -⟩
      · exact closed
      · have busy : s.snapshotTask = true := by
          rw [← alive.2, ← task]
          unfold kServerProcessBundlePersist
          split
          · rfl
          · rfl
        exact Bool.noConfusion (idle.symm.trans busy)
    · exact settled

theorem maybeSnapshot_guarded {s : Host} {due taken : Bool} (guarded : Guarded s)
    (keeps : Keeps s (.maybeSnapshot due taken)) : Guarded (kServerMaybeSnapshot s due taken) := by
  unfold kServerMaybeSnapshot
  split
  · exact guarded
  · rename_i free
    dsimp only
    split
    · rename_i granted
      have posted : taken = true := keeps (by simpa using free) granted
      rw [if_pos posted]
      exact ⟨guarded.txn, guarded.forks, .inr ⟨rfl, rfl⟩, guarded.loads, guarded.fatal⟩
    · exact guarded.driven _ s.stops

/-- After a result there is no capture. -/
theorem saved_guarded {s : Host} (guarded : Guarded s) (ok : Bool) (size : Int) :
    Guarded (kServerPollSnapshot s ok size) := by
  have closed : ∀ server flag, Guarded { s with
      server := server
      snapshotTask := false
      snapshotInflight := flag
      forest := { s.forest with tree := treapSaveFinish s.forest.tree } } :=
    fun _ _ => ⟨guarded.txn, guarded.forks, .inl rfl, guarded.loads, guarded.fatal⟩
  unfold kServerPollSnapshot
  dsimp only
  split
  · exact guarded
  · split
    · exact closed _ _
    · split
      · split
        · exact closed _ _
        · exact closed _ _
      · exact closed _ _

theorem step_guarded {s : Host} {event : Event} (guarded : Guarded s) (keeps : Keeps s event) :
    Guarded (s.step event) := by
  unfold Host.step
  split
  · exact guarded
  · cases event with
    | recvPeer msg => exact guarded.driven _ s.stops
    | recvClient msg => exact guarded.driven _ s.stops
    | execCmd ops => exact guarded.changes [.transaction ops false]
    | maybeSnapshot due taken => exact maybeSnapshot_guarded guarded keeps
    | saved ok size => exact saved_guarded guarded ok size
    | stop => exact guarded.driven _ s.stops
    | drive elapsedMs walInflightMax replace work =>
      exact drive_guarded guarded elapsedMs walInflightMax replace work
    | persisted work => exact persisted_guarded guarded keeps

/-! ## Runs -/

def Serves (cond : Host → Event → Prop) (cfg : CreateConfig) (root : Option Nat) : Host → Prop :=
  Lib.Runs.Reaches (fun s => Host.start cfg root = some s) Host.step cond

/-- In every run whose completions and saves meet the condition, each snapshot that is
installed meets a tree without a capture or a working copy, and the server ends by a load
only where the file cannot be read. -/
theorem install_meets_no_capture {cfg : CreateConfig} {root : Option Nat} {s : Host}
    (reached : Serves Keeps cfg root s) : (∀ load ∈ s.loads, Clean load) ∧
      (s.fatal = true → ∃ load ∈ s.loads, load.file = none) := by
  have guarded : Guarded s := by
    refine Lib.Runs.Reaches.invariant ?_ ?_ reached
    · intro s created
      obtain ⟨server, -, rfl⟩ := Option.map_eq_some_iff.mp created
      exact ⟨rfl, rfl, .inl rfl, fun _ member => absurd member List.not_mem_nil,
        fun failed => Bool.noConfusion failed⟩
    · exact fun s event guarded keeps => step_guarded guarded keeps
  exact ⟨guarded.loads, guarded.fatal⟩

/-! Three voters; this node is 1 and follows node 2. It has one entry and takes a snapshot
of it; node 2 has gone on and sends its own snapshot at index 5. -/

def follower : CreateConfig := ⟨1, [1, 2, 3], false, 10, 100, 200, 7, 1024, 4, none⟩

/-- A set of the key `a` to `b`. -/
def setCommand : List UInt8 := [1, 1, 0, 0, 0, 97, 1, 0, 0, 0, 98]

def firstEntry : PeerMessage :=
  ⟨2, 1, .appendEntries ⟨1, 0, 0, 1, 0, [⟨1, 0, setCommand, [], [], []⟩], 2⟩⟩

def wholeSnapshot : PeerMessage :=
  ⟨2, 1, .installSnapshot
    { term := 1
      snapshotLastIndex := 5
      snapshotLastTerm := 1
      snapshotOffset := 0
      snapshotDataSize := 3
      snapshotChunkSize := 3
      snapshotCfgOld := [1, 2, 3]
      snapshotCfgNew := [1, 2, 3]
      snapshotCfgLearners := []
      snapshotDone := true
      leaderId := 2 }⟩

def idle : Work := ⟨[], none, [], []⟩

/-- The command makes node 1 the root; a snapshot file holds the tree at node 2. -/
def applies : Work := ⟨[.op ⟨some 1, [1], []⟩], none, [], []⟩

def received : Work := ⟨[], some (some 2), [], []⟩

def round (work : Work) : Event := .drive 0 4 [] work

/-- The entry is applied. -/
def entryEvents : List Event := [round idle, .recvPeer firstEntry, round applies, .persisted idle]

/-- The save ends before the record of the received snapshot is on disk. -/
theorem install_after_save : ∃ s, Serves Keeps follower none s ∧
    s.forest.tree.live.root = some 2 ∧ ∃ load ∈ s.loads, load.file = some (some 2) ∧
      Free load.forest := by
  obtain ⟨s, reached, tested⟩ := Lib.Runs.Reaches.exists_of_through Host.step Keeps
    (Host.start follower none) (fun _ => id)
    (fun s => s.forest.tree.live.root == some 2 && s.loads.any (fun load => load.file == some (some 2)))
    (entryEvents ++ [.maybeSnapshot true true, .recvPeer wholeSnapshot, round received,
      .saved true 77, .persisted idle, round received]) (by decide +kernel)
  simp only [Bool.and_eq_true, beq_iff_eq, List.any_eq_true] at tested
  obtain ⟨root, load, member, file⟩ := tested
  exact ⟨s, reached, root, load, member, file, ((install_meets_no_capture reached).1 load member).free⟩

/-- The server ended because the tree turned a sound file down. -/
def EndedByCapture (s : Host) : Prop :=
  s.fatal = true ∧ ∃ load ∈ s.loads, load.file.isSome = true ∧ load.forest.tree.refuses = true ∧
    ¬Free load.forest

/-- The events end the server over an open capture. -/
def EndsByCapture (events : List Event) : Prop :=
  ∃ first, Host.start follower none = some first ∧
    Serves (fun _ _ => True) follower none (events.foldl Host.step first) ∧
    EndedByCapture (events.foldl Host.step first)

theorem endsByCapture_of_test (events : List Event)
    (tested : ((Host.start follower none).map (fun first => events.foldl Host.step first)).any
      (fun s => s.fatal && s.loads.any (fun load => load.file.isSome && load.forest.tree.refuses)) =
        true) : EndsByCapture events := by
  obtain ⟨s, given, ended⟩ := (Option.any_eq_true _ _).mp tested
  obtain ⟨first, started, rfl⟩ := Option.map_eq_some_iff.mp given
  simp only [Bool.and_eq_true, List.any_eq_true] at ended
  obtain ⟨fatal, load, member, sound, refused⟩ := ended
  have begins : Serves (fun _ _ => True) follower none first := Lib.Runs.Reaches.start started
  exact ⟨first, started, begins.foldl events, fatal, load, member, sound, refused,
    fun free => Bool.noConfusion (free.refuses.symm.trans refused)⟩

/-- The record of the received snapshot is on disk before the save ends. -/
def overtaken : List Event :=
  entryEvents ++ [.maybeSnapshot true true, .recvPeer wholeSnapshot, round received, .persisted idle,
    round received]

/-- The worker's queue does not take the save. -/
def turnedAway : List Event :=
  entryEvents ++ [.maybeSnapshot true false, .recvPeer wholeSnapshot, round received]

/-- The flag is released under the save, or was never set for the capture: the next round
installs the snapshot over the capture. -/
theorem install_over_capture : EndsByCapture overtaken ∧ EndsByCapture turnedAway :=
  ⟨endsByCapture_of_test overtaken (by decide +kernel), endsByCapture_of_test turnedAway (by decide +kernel)⟩

end Kynovo.Server.OpenCapture
