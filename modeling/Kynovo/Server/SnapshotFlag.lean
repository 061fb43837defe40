import Kynovo.Lib.Runs
import Kynovo.Raft.SaveFrame

/-! The server's snapshot flag. While it is set no other snapshot is started. The server
sets it when it hands a save to the snapshot worker and releases it when the save fails
or when the record with the snapshot's metadata is on disk; in between the node holds the
snapshot as pending. A round that the server skips (no voter peer, or too many writes in
flight) is no event here, and the live half of a bundle is a call of its own. -/
namespace Kynovo.Server.SnapshotFlag
open Kynovo.Lib.Runs
open Kynovo.Raft
open Kynovo.Raft.NodeEdits
open Kynovo.Raft.SaveFrame
open Kynovo.Wal.Record

/-- A bundle whose view is with the WAL worker. -/
structure Posted where
  view : Persist
  phaseStopped : Bool
deriving DecidableEq

structure Server where
  raft : Node
  posted : List Posted
  snapshotInflight : Bool
  snapshotTask : Bool
  stopping : Bool
  raftStopped : Bool
deriving DecidableEq

/-- What the server's loop meets. A save is `due` by the policy on entries, segments and
bytes, and `taken` when the worker's queue accepts it. -/
inductive Event where
  | peer (msg : PeerMessage)
  | client (msg : ClientMessage)
  | applied (appliedIndex : Int)
  | provided (followerId byteOffset : Int) (size : Nat)
  | drive (elapsedMs : Nat)
  | written
  | maybeSnapshot (due taken : Bool)
  | saved (ok : Bool) (size : Int)
  | stop

/-- A stopping server reports nothing; the last bundle of a stopped node releases the flag
unless the worker still has the save. -/
def kServerProcessBundlePersist (s : Server) (view : Option Persist) (phaseStopped : Bool) : Server :=
  let node := match view with
    | some view => if s.stopping then s.raft else completeView s.raft view
    | none => s.raft
  { s with
    raft := node
    raftStopped := s.raftStopped || phaseStopped
    snapshotInflight := if phaseStopped then s.snapshotInflight && s.snapshotTask
      else s.snapshotInflight }

def kServerDrive (s : Server) (elapsedMs : Nat) : Server :=
  let advanced := raftAdvance s.raft elapsedMs
  let consumed := { s with raft := raftReadyConsumed advanced.1 }
  match advanced.2.persist with
  | some view => { consumed with posted := s.posted ++ [⟨view, advanced.2.phaseStopped⟩] }
  | none => kServerProcessBundlePersist consumed none advanced.2.phaseStopped

/-- The oldest write is on disk. A failed write ends the server. -/
def kServerPollWal (s : Server) : Server :=
  match s.posted with
  | [] => s
  | bundle :: rest =>
    let persisted :=
      kServerProcessBundlePersist { s with posted := rest } (some bundle.view) bundle.phaseStopped
    if bundle.view.snapshotDirty then { persisted with snapshotInflight := false } else persisted

def kServerMaybeSnapshot (s : Server) (due taken : Bool) : Server :=
  if s.stopping || s.snapshotInflight || s.snapshotTask || !due then s
  else
    match raftSnapshot s.raft with
    | (node, 0) =>
      if taken then
        { s with
          raft := node
          snapshotTask := true
          snapshotInflight := true }
      else { s with raft := node }
    | (node, _) => { s with raft := node }

/-- The worker's result of a save. -/
def kServerPollSnapshot (s : Server) (ok : Bool) (size : Int) : Server :=
  if !s.snapshotTask then s
  else if s.stopping || s.raftStopped then
    { s with
      snapshotTask := false
      snapshotInflight := false }
  else if ok then
    match raftSnapshotDataReady s.raft size with
    | (node, 0) =>
      { s with
        raft := node
        snapshotTask := false }
    | (node, _) =>
      { s with
        raft := node
        snapshotTask := false
        snapshotInflight := false }
  else
    { s with
      snapshotTask := false
      snapshotInflight := false }

def Server.step (s : Server) : Event → Server
  | .peer msg => { s with raft := (raftRecvfromPeer s.raft msg).1 }
  | .client msg => { s with raft := (raftRecvfromClient s.raft msg).1 }
  | .applied appliedIndex => { s with raft := (raftApplyComplete s.raft appliedIndex).1 }
  | .provided followerId byteOffset size =>
    { s with raft := (raftSnapshotDataProvided s.raft followerId byteOffset size).1 }
  | .drive elapsedMs => kServerDrive s elapsedMs
  | .written => kServerPollWal s
  | .maybeSnapshot due taken => kServerMaybeSnapshot s due taken
  | .saved ok size => kServerPollSnapshot s ok size
  | .stop =>
    { s with
      raft := raftStop s.raft
      stopping := true }

def Server.start (cfg : CreateConfig) : Option Server :=
  (raftCreate cfg).map (fun node => ⟨node, [], false, false, false, false⟩)

/-- A record that names a snapshot is on its way to disk. -/
def metadataPosted (s : Server) : Bool := s.posted.any (fun bundle => bundle.view.snapshotDirty)

/-- A set flag has something that will release it: the save with the worker, the snapshot
pending in the node, or its record on the way to disk. -/
def Held (s : Server) : Prop :=
  s.snapshotInflight = true →
    s.snapshotTask = true ∨ s.raft.snapshotPendingDirty = true ∨ metadataPosted s = true

/-! ## Where the flag is lost -/

/-- The calls that make the node give up its pending snapshot: it becomes a follower of a
newer term, steps down in its own, installs a newer snapshot or starts to drain. -/
def drops (r : Node) : Event → Bool
  | .peer msg => takesTerm r msg.sender msg.rpc
  | .applied appliedIndex => applyDrops r appliedIndex
  | .drive elapsedMs => advanceDrops r elapsedMs
  | _ => false

/-- Only the node's pending snapshot will release the flag. -/
def waitsForNode (s : Server) : Bool :=
  s.snapshotInflight && !s.snapshotTask && !metadataPosted s

/-- A save ends well though the node has given its snapshot up. -/
def savedInVain (s : Server) : Event → Bool
  | .saved ok _ => ok && s.snapshotTask && !s.stopping && !s.raftStopped &&
      !s.raft.snapshotPendingDirty
  | _ => false

def Keeps (s : Server) (event : Event) : Prop :=
  (waitsForNode s && drops s.raft event) = false ∧ savedInVain s event = false

instance (s : Server) (event : Event) : Decidable (Keeps s event) :=
  inferInstanceAs (Decidable (_ ∧ _))

/-- A call of the node that gives its snapshot up only where the flag does not depend on
it. -/
theorem Held.of_leaves {s : Server} {node : Node} (held : Held s)
    (leaves : Leaves (waitsForNode s = false) s.raft node) : Held { s with raft := node } := by
  intro set
  rcases held set with task | pending | posted
  · exact .inl task
  · rcases leaves with same | ⟨free, -⟩
    · exact .inr (.inl ((dirty_of_saving same).trans pending))
    · have flag : s.snapshotInflight = true := set
      simp only [waitsForNode, flag, Bool.true_and, Bool.and_eq_false_iff, Bool.not_eq_false'] at free
      rcases free with task | posted
      · exact .inl task
      · exact .inr (.inr posted)
  · exact .inr (.inr posted)

/-! ## Rounds and completions -/

/-- The end of a bundle without a view. -/
theorem Held.stopped {s : Server} (held : Held s) (phaseStopped : Bool) :
    Held (kServerProcessBundlePersist s none phaseStopped) := by
  intro set
  unfold kServerProcessBundlePersist at set ⊢
  dsimp only at set ⊢
  split at set
  · exact .inl (Bool.and_eq_true_iff.mp set).2
  · exact held set

def Serves (cond : Server → Event → Prop) (cfg : CreateConfig) : Server → Prop :=
  Reaches (fun s => Server.start cfg = some s) Server.step cond

end Kynovo.Server.SnapshotFlag
