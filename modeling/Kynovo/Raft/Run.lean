import Kynovo.Lib.IndexedLog
import Kynovo.Raft.Client

/-! One node and its caller. The caller takes every Ready bundle at once, and a
persist view it was handed is in flight until its record is on disk; views
complete in the order in which they were handed out, possibly late. The calls
may come in any order. -/
namespace Kynovo.Raft
open Kynovo.Lib
open Kynovo.Wal.Record

inductive Op where
  | recvPeer (msg : PeerMessage)
  | recvClient (msg : ClientMessage)
  | advance (elapsedMs : Nat)
  | complete
  | applyComplete (appliedIndex : Int)
  | snapshot
  | snapshotDataReady (totalSize : Int)
  | snapshotDataProvided (followerId byteOffset : Int) (size : Nat)
  | stop
deriving DecidableEq

/-! ## What the views say together -/

/-- The log that a sequence of views describes: a view with entries restates it
from its first index on. -/
def handedLog (views : List Persist) : List PersistEntry :=
  views.foldl (fun log view => IndexedLog.restate PersistEntry.index log view.logEntries) []

def handedAt (views : List Persist) (idx : Int) : Option PersistEntry :=
  (handedLog views).find? (fun entry => entry.index == idx)

/-- Index, term, kind and data of a persisted entry. -/
def content (entry : PersistEntry) : Int × Int × Nat × List UInt8 :=
  (entry.index, entry.term, entry.kind, entry.data)

/-- The durable index the caller reports for a view, as `k_state_serialize`
computes it. -/
def viewDurable (view : Persist) : Int :=
  (view.logEntries.getLast?.map PersistEntry.index).getD view.lastIncludedIndex

/-- A view that names a snapshot leaves out the log entries up to the snapshot.
It is harmless when the log reaches the snapshot and earlier views have handed
out all that is left out. -/
def skipsNothing (r : Node) (emitted : List Persist) (view : Persist) : Bool :=
  decide (view.lastIncludedIndex ≤ raftLogLastIndex r.log) &&
    ((persistEntries r.log (r.persistSyncedIndex + 1)).filter
      (fun entry => decide (entry.index ≤ view.lastIncludedIndex))).all
      (fun entry => (handedAt emitted entry.index).map content == some (content entry))

/-! ## Runs -/

/-- A view in flight. `settled` remembers whether it skipped nothing. -/
structure Handed where
  view : Persist
  settled : Bool

structure Run where
  node : Node
  inflight : List Handed
  emitted : List Persist
  completed : List Persist
  released : List PeerMessage

/-- The calls that hand out nothing. -/
def call (r : Node) : Op → Node
  | .recvPeer msg => (raftRecvfromPeer r msg).1
  | .recvClient msg => (raftRecvfromClient r msg).1
  | .applyComplete appliedIndex => (raftApplyComplete r appliedIndex).1
  | .snapshot => (raftSnapshot r).1
  | .snapshotDataReady totalSize => (raftSnapshotDataReady r totalSize).1
  | .snapshotDataProvided followerId byteOffset size =>
    (raftSnapshotDataProvided r followerId byteOffset size).1
  | .stop => raftStop r
  | .advance _ => r
  | .complete => r

/-- The completion of a view, as `k_server_process_bundle_persist` reports it. -/
def completeView (r : Node) (view : Persist) : Node :=
  let reported := (raftPersistComplete r (viewDurable view)).1
  if view.snapshotDirty then (raftSnapshotPersistComplete reported (viewDurable view)).1
  else reported

/-- A round of the caller: the bundle is taken and consumed. -/
def drive (run : Run) (elapsedMs : Nat) : Run :=
  let advanced := raftAdvance run.node elapsedMs
  let handed := advanced.2.persist.toList
  { run with
    node := raftReadyConsumed advanced.1
    inflight := run.inflight ++
      handed.map (fun view => ⟨view, skipsNothing advanced.1 run.emitted view⟩)
    emitted := run.emitted ++ handed
    released := run.released ++ advanced.2.msgs }

def settleFirst (run : Run) : Run :=
  match run.inflight with
  | [] => run
  | handed :: rest =>
    { run with
      node := completeView run.node handed.view
      inflight := rest
      completed := run.completed ++ [handed.view] }

def Run.step (run : Run) (op : Op) : Run :=
  match op with
  | .advance elapsedMs => drive run elapsedMs
  | .complete => settleFirst run
  | op => { run with node := call run.node op }

/-- A node starts from what its caller restored, which is on disk. -/
def Run.start (cfg : CreateConfig) : Option Run :=
  (raftCreate cfg).map (fun node =>
    { node
      inflight := []
      emitted := cfg.restore.toList
      completed := cfg.restore.toList
      released := [] })

/-- The runs whose steps all meet a condition on the state before the step. -/
inductive Reaches (cond : Run → Op → Prop) (cfg : CreateConfig) : Run → Prop where
  | start {run : Run} (created : Run.start cfg = some run) : Reaches cond cfg run
  | step {run : Run} {op : Op} (reached : Reaches cond cfg run) (meets : cond run op) :
      Reaches cond cfg (run.step op)

/-- An invariant of the start and of every step that meets the condition holds in
every run. -/
theorem Reaches.invariant {cond : Run → Op → Prop} {cfg : CreateConfig} {inv : Run → Prop}
    (base : ∀ run, Run.start cfg = some run → inv run)
    (preserved : ∀ run op, inv run → cond run op → inv (run.step op)) {run : Run}
    (reached : Reaches cond cfg run) : inv run := by
  induction reached with
  | start created => exact base _ created
  | step _ meets ih => exact preserved _ _ ih meets

/-- The operations are run as long as each meets the condition. -/
def Run.through (cond : Run → Op → Prop) [∀ run op, Decidable (cond run op)] (run : Run) :
    List Op → Option Run
  | [] => some run
  | op :: rest => if cond run op then Run.through cond (run.step op) rest else none

theorem Reaches.through {cond : Run → Op → Prop} [∀ run op, Decidable (cond run op)]
    {cfg : CreateConfig} {ops : List Op} {run final : Run} (reached : Reaches cond cfg run)
    (passed : run.through cond ops = some final) : Reaches cond cfg final := by
  induction ops generalizing run with
  | nil =>
    cases passed
    exact reached
  | cons op rest ih =>
    unfold Run.through at passed
    split at passed
    · rename_i meets
      exact ih (reached.step meets) passed
    · cases passed

/-- A run that passes its checks reaches a state with a property that was
computed. -/
theorem Reaches.exists_of_through (cond : Run → Op → Prop) [∀ run op, Decidable (cond run op)]
    (cfg : CreateConfig) (test : Run → Bool) (ops : List Op)
    (passed : ((Run.start cfg).bind (·.through cond ops)).any test = true) :
    ∃ run, Reaches cond cfg run ∧ test run = true := by
  obtain ⟨final, given, tested⟩ := (Option.any_eq_true _ _).mp passed
  obtain ⟨first, started, through⟩ := Option.bind_eq_some_iff.mp given
  exact ⟨final, (Reaches.start started).through through, tested⟩

end Kynovo.Raft
