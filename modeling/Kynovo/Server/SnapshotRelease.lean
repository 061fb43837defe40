import Kynovo.Lib.LongRuns
import Kynovo.Raft.LocalSave
import Kynovo.Raft.Owed
import Kynovo.Server.SnapshotFlag
import Mathlib.Order.SuccPred.WithBot

/-! The release of the server's snapshot flag. What sets the flag goes on by itself: the
save reports, the next round posts the record that names the snapshot, and the write of
that record completes the snapshot in the node and releases the flag. The distance to that
write never grows, and the event the server waits for shortens it. -/
namespace Kynovo.Server.SnapshotRelease
open Kynovo.Lib
open Kynovo.Lib.LongRuns
open Kynovo.Raft
open Kynovo.Raft.Frame
open Kynovo.Raft.Frontier
open Kynovo.Raft.NodeEdits
open Kynovo.Raft.Owed
open Kynovo.Raft.SaveFrame
open Kynovo.Server.SnapshotFlag
open Kynovo.Wal.Record

/-- The write of this bundle releases what it finds set: the record names a snapshot, and
reaches the one that the node has pending. -/
def clears (r : Node) (bundle : Posted) : Bool :=
  bundle.view.snapshotDirty &&
    (!r.snapshotPendingDirty || decide (r.snapshotPending.lastIndex ≤ viewDurable bundle.view))

/-! ## What a release needs -/

/-- The flag is clear and another snapshot can be started, or the server goes down. -/
def Released (s : Server) : Prop :=
  (s.snapshotInflight = false ∧ s.snapshotTask = false ∧ s.raft.snapshotPendingDirty = false) ∨
    s.stopping = true ∨ s.raftStopped = true

/-- A snapshot whose save has ended is complete in the node, and its record is due or on
the way to disk. -/
def Due (s : Server) : Prop :=
  s.stopping = false → s.raftStopped = false → s.snapshotTask = false →
    s.raft.snapshotPendingDirty = true → s.raft.snapshotDataReadyFlag = true ∧
      (s.raft.persistNeeded = true ∨ s.posted.any (clears s.raft) = true)

/-- The log reaches the pending snapshot and can be compacted to it. -/
def compacts (r : Node) : Bool :=
  r.completing && decide (r.log.lastIncludedIndex ≤ r.snapshotPending.lastIndex) &&
    decide (r.snapshotPending.lastIndex ≤ raftLogLastIndex r.log)

/-- The steps that leave the node with a snapshot that nothing completes: the worker's
queue refuses a snapshot that the node has granted; the save fails, or is reported to a
node that is not running; after it a round hands out a received snapshot below the node's
own, or the completion is refused, which ends the server. -/
def abandons (s : Server) : Event → Bool
  | .maybeSnapshot due taken =>
    due && !taken && !s.snapshotInflight && !s.snapshotTask && (raftSnapshot s.raft).2 == 0
  | .saved ok _ =>
    s.snapshotTask && s.raft.snapshotPendingDirty && !(ok && s.raft.phase == .running)
  | .drive elapsedMs =>
    let node := (raftAdvance s.raft elapsedMs).1
    !s.snapshotTask && node.snapshotPendingDirty && node.snapshotInstallPending &&
      decide (node.snapshotRecv.lastIndex < node.snapshotPending.lastIndex)
  | .written =>
    !s.snapshotTask && s.posted.head?.any (clears s.raft) && s.raft.snapshotPendingDirty &&
      !compacts s.raft
  | _ => false

def Completes (s : Server) (event : Event) : Prop :=
  Keeps s event ∧ (!s.stopping && !s.raftStopped && abandons s event) = false

instance (s : Server) (event : Event) : Decidable (Completes s event) :=
  inferInstanceAs (Decidable (_ ∧ _))

/-- What the server waits for. -/
inductive Wait where
  | save
  | write
  | round

def waits (s : Server) : Wait :=
  if s.snapshotTask then .save else if s.posted.isEmpty then .round else .write

def answered : Event → Option Wait
  | .saved _ _ => some .save
  | .written => some .write
  | .drive _ => some .round
  | _ => none

/-- How far the release is: a save is further than any number of writes. -/
def distance (s : Server) : WithTop ℕ :=
  if s.snapshotTask then ⊤ else (ahead (clears s.raft) s.posted : ℕ)

theorem Completes.keeps {s : Server} {event : Event} (completes : Completes s event) :
    Keeps s event :=
  completes.1

/-- While the server runs. -/
theorem Completes.running {s : Server} {event : Event} (completes : Completes s event)
    (stopping : s.stopping = false) (raftStopped : s.raftStopped = false) :
    abandons s event = false := by
  have kept := completes.2
  rw [stopping, raftStopped] at kept
  exact kept

/-! ## One step -/

/-- What a step comes to from a state short of the release. -/
def Nearer (s : Server) (event : Event) (s' : Server) : Prop :=
  Released s' ∨ distance s' < distance s ∨
    (distance s' = distance s ∧ waits s' = waits s ∧ answered event ≠ some (waits s))

theorem Nearer.of_le {s s' : Server} {event : Event} (further : distance s' ≤ distance s)
    (waiting : waits s' = waits s) (silent : answered event ≠ some (waits s)) :
    Nearer s event s' := by
  rcases further.lt_or_eq with lower | same
  · exact .inr (.inl lower)
  · exact .inr (.inr ⟨same, waiting, silent⟩)

theorem clears_mono {r r' : Node} (leaves : Leaves True r r') (bundle : Posted)
    (before : clears r bundle = true) : clears r' bundle = true := by
  simp only [clears, Bool.and_eq_true] at before ⊢
  refine ⟨before.1, ?_⟩
  rcases leaves with same | ⟨-, pending, -⟩
  · obtain ⟨taken, flags⟩ := Prod.mk.inj same
    rw [taken, (Prod.mk.inj flags).1]
    exact before.2
  · rw [pending]
    rfl

theorem any_clears_mono {r r' : Node} (leaves : Leaves True r r') {posted : List Posted}
    (before : posted.any (clears r) = true) : posted.any (clears r') = true := by
  obtain ⟨bundle, member, cleared⟩ := List.any_eq_true.mp before
  exact List.any_eq_true.mpr ⟨bundle, member, clears_mono leaves bundle cleared⟩

/-- The pending snapshot that is still there is the one that was. -/
theorem saving_of_leaves {r r' : Node} (leaves : Leaves True r r')
    (pending : r'.snapshotPendingDirty = true) : saving r' = saving r := by
  rcases leaves with same | ⟨-, given, -⟩
  · exact same
  · exact Bool.noConfusion (given.symm.trans pending)

/-- What is due before a call that leaves the node its pending snapshot. -/
theorem Due.before {s : Server} {node : Node} (due : Due s) (leaves : Leaves True s.raft node)
    (stopping : s.stopping = false) (raftStopped : s.raftStopped = false)
    (task : s.snapshotTask = false) (pending : node.snapshotPendingDirty = true) :
    node.snapshotDataReadyFlag = true ∧
      (s.raft.persistNeeded = true ∨ s.posted.any (clears node) = true) := by
  have same := saving_of_leaves leaves pending
  obtain ⟨dirty, ready⟩ := Prod.mk.inj (Prod.mk.inj same).2
  obtain ⟨complete, way⟩ := due stopping raftStopped task (dirty.symm.trans pending)
  exact ⟨ready.trans complete, way.imp_right (any_clears_mono leaves)⟩

/-- A call of the node between the rounds. -/
theorem Due.of_leaves {s : Server} {node : Node} (due : Due s) (leaves : Leaves True s.raft node)
    (stays : s.raft.persistNeeded = true → node.persistNeeded = true) :
    Due { s with raft := node } := by
  intro stopping raftStopped task pending
  obtain ⟨complete, way⟩ := due.before leaves stopping raftStopped task pending
  exact ⟨complete, way.imp_left stays⟩

theorem Nearer.of_leaves {s : Server} {node : Node} {event : Event}
    (leaves : Leaves True s.raft node) (silent : answered event ≠ some (waits s)) :
    Nearer s event { s with raft := node } := by
  refine .of_le ?_ rfl silent
  unfold distance
  dsimp only
  split
  · exact le_rfl
  · exact WithTop.coe_le_coe.mpr (ahead_mono (clears_mono leaves) s.posted)

/-! ## Rounds -/

theorem Released.due {s : Server} (released : Released s) : Due s := by
  intro stopping raftStopped task pending
  rcases released with ⟨-, -, none⟩ | down | down
  · exact Bool.noConfusion (none.symm.trans pending)
  · exact Bool.noConfusion (stopping.symm.trans down)
  · exact Bool.noConfusion (raftStopped.symm.trans down)

/-- The save that the worker has reports, the writes under way reach the disk, and with no
write under way the server skips no round. -/
structure Fair (run : LongRun Server.step Completes) : Prop where
  saves : ∀ n, (run.states n).snapshotTask = true → ∃ m ≥ n, answered (run.events m) = some .save
  writes : ∀ n, (run.states n).posted.isEmpty = false →
    ∃ m ≥ n, answered (run.events m) = some .write
  rounds : ∀ n, (run.states n).posted.isEmpty = true →
    ∃ m ≥ n, answered (run.events m) = some .round

theorem Fair.answers {run : LongRun Server.step Completes} (fair : Fair run) (n : ℕ) :
    ∃ m ≥ n, answered (run.events m) = some (waits (run.states n)) := by
  unfold waits
  split
  · rename_i task
    exact fair.saves n task
  · split
    · rename_i idle
      exact fair.rounds n idle
    · rename_i busy
      exact fair.writes n (eq_false_of_ne_true busy)

/-- What every run keeps. -/
structure Sound (s : Server) : Prop where
  held : Held s
  due : Due s

def follower : CreateConfig := ⟨1, [1, 2, 3], false, 10, 100, 200, 7, 1024, 4, none⟩

def firstEntry : PeerMessage :=
  ⟨2, 1, .appendEntries ⟨1, 0, 0, 1, 0, [⟨1, 0, [65], [], [], []⟩], 2⟩⟩

end Kynovo.Server.SnapshotRelease
