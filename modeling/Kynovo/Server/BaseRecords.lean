import Kynovo.Lib.Runs
import Kynovo.Raft.LocalSave
import Kynovo.Server.Drive

/-! The snapshot that a WAL record describes. A record names the index and the term of the
log's base; the size and the configuration come with the view when it brings a snapshot, else
from the server's cache, which follows a snapshot only once its record is on disk. -/
namespace Kynovo.Server.BaseRecords
open Kynovo.Lib.Runs
open Kynovo.Raft
open Kynovo.Raft.LocalSave
open Kynovo.Raft.SaveFrame
open Kynovo.Raft.Frontier
open Kynovo.Wal.Record
open Kynovo.Server.Drive

/-- `snapshot_after`: the snapshot a view brings. -/
def viewSnapshot (view : Persist) : SnapshotMeta :=
  ⟨view.lastIncludedIndex, view.lastIncludedTerm, view.snapshotSize, view.snapshotCfgOld,
    view.snapshotCfgNew, view.snapshotCfgLearners⟩

def cacheOf (snapshot : SnapshotMeta) : SnapshotCache :=
  ⟨snapshot.size, snapshot.cfgOld, snapshot.cfgNew, snapshot.cfgLearners⟩

/-- What a record says about the snapshot at its base. -/
def recordSnapshot (record : WalRecord) : SnapshotMeta :=
  ⟨record.lastIncludedIndex, record.lastIncludedTerm, record.snapshotSize, record.cfgOld,
    record.cfgNew, record.cfgLearners⟩

/-- The server with its cached snapshot and the save that the worker has. `known` lists the
snapshots there are: restored, saved, or received in full, each from the step on that makes
it so. -/
structure Ledger where
  server : Server
  snapshot : SnapshotMeta
  task : Option SnapshotMeta
  known : List SnapshotMeta
  records : List WalRecord

inductive Step where
  | recvPeer (msg : PeerMessage)
  | recvClient (msg : ClientMessage)
  | maybeSnapshot
  | saved (totalSize : Int)
  | saveFailed
  | stop
  | drive (elapsedMs walInflightMax : Nat) (replace : List ClientMessage) (input : LiveInput)
  | persisted (input : LiveInput)

/-- The view that a round hands to `k_state_serialize`. -/
def Ledger.handed (s : Ledger) (elapsedMs walInflightMax : Nat) : Option Persist :=
  if s.server.mayAdvance walInflightMax then (raftAdvance s.server.run.node elapsedMs).2.persist
  else none

/-- A snapshot that was received in full waits in the node. -/
def received (r : Node) : List SnapshotMeta :=
  if r.snapshotInstallPending then [r.snapshotRecv] else []

/-- No second save is started while the worker has one. -/
def Ledger.maybeSnapshot (s : Ledger) : Ledger :=
  if s.task.isSome || s.server.stopping then s
  else { s with
    server := s.server.step .snapshot
    task := if (raftSnapshot s.server.run.node).2 = 0 then
      some (raftSnapshot s.server.run.node).1.snapshotPending else none }

def Ledger.saved (s : Ledger) (totalSize : Int) : Ledger :=
  match s.task with
  | none => s
  | some _ =>
    if s.server.stopping then { s with task := none }
    else { s with
      server := s.server.step (.snapshotDataReady totalSize)
      task := none }

def Ledger.drive (s : Ledger) (elapsedMs walInflightMax : Nat) (replace : List ClientMessage)
    (input : LiveInput) : Ledger :=
  { s with
    server := kServerDrive s.server elapsedMs walInflightMax replace input
    records := s.records ++
      (s.handed elapsedMs walInflightMax).toList.map (recordOf (cacheOf s.snapshot)) }

/-- The cache takes the snapshot of a view that brought one. -/
def Ledger.persisted (s : Ledger) (input : LiveInput) : Ledger :=
  { s with
    server := kServerPollWal s.server input
    snapshot := match s.server.posted with
      | [] => s.snapshot
      | first :: _ => if first.view.snapshotDirty then viewSnapshot first.view else s.snapshot }

/-- The server's part of a step. -/
def Ledger.act (s : Ledger) : Step → Ledger
  | .recvPeer msg => { s with server := s.server.step (.recvPeer msg) }
  | .recvClient msg => { s with server := s.server.step (.recvClient msg) }
  | .maybeSnapshot => s.maybeSnapshot
  | .saved totalSize => s.saved totalSize
  | .saveFailed => { s with task := none }
  | .stop => { s with server := s.server.step .stop }
  | .drive elapsedMs walInflightMax replace input => s.drive elapsedMs walInflightMax replace input
  | .persisted input => s.persisted input

/-- The snapshots that a step makes known. -/
def Ledger.takenUp (s : Ledger) : Step → List SnapshotMeta
  | .recvPeer msg => received (s.server.step (.recvPeer msg)).run.node
  | .drive elapsedMs _ _ _ => received (raftAdvance s.server.run.node elapsedMs).1
  | .saved totalSize =>
    if s.server.stopping then []
    else s.task.toList.map fun taken => { taken with size := totalSize }
  | _ => []

def Ledger.step (s : Ledger) (event : Step) : Ledger :=
  { s.act event with known := s.known ++ s.takenUp event }

/-- The cache starts with the snapshot of the restored view. -/
def Ledger.start (cfg : CreateConfig) : Option Ledger :=
  (Server.start cfg).map fun server =>
    { server
      snapshot := (cfg.restore.map viewSnapshot).getD .zero
      task := none
      known := cfg.restore.toList.map viewSnapshot
      records := [] }

/-! ## Where a record goes wrong -/

/-- A view without a snapshot of its own finds the snapshot at its base in the cache. -/
def Settles (snapshot : SnapshotMeta) (view : Persist) : Prop :=
  view.snapshotDirty = true ∨ view.lastIncludedIndex ≤ 0 ∨
    (snapshot.lastIndex = view.lastIncludedIndex ∧ snapshot.lastTerm = view.lastIncludedTerm)

instance (snapshot : SnapshotMeta) (view : Persist) : Decidable (Settles snapshot view) :=
  inferInstanceAs (Decidable (_ ∨ _ ∨ _))

/-- A snapshot that a step makes known is not another one than those known at its index. -/
def Fresh (s : Ledger) (event : Step) : Prop :=
  ∀ snapshot ∈ s.takenUp event, ∀ other ∈ s.known, other.lastIndex = snapshot.lastIndex →
    other = snapshot

instance (s : Ledger) (event : Step) : Decidable (Fresh s event) :=
  inferInstanceAs (Decidable (∀ snapshot ∈ s.takenUp event, ∀ other ∈ s.known, _ → _))

/-- Every view finds its snapshot, and no save is reported that the node has given up. -/
def Finds (s : Ledger) : Step → Prop
  | .drive elapsedMs walInflightMax _ _ =>
    ∀ view ∈ s.handed elapsedMs walInflightMax, Settles s.snapshot view
  | .saved _ => s.task.isSome = true → s.server.run.node.snapshotPendingDirty = true
  | _ => True

instance (s : Ledger) (event : Step) : Decidable (Finds s event) :=
  match event with
  | .drive elapsedMs walInflightMax _ _ =>
    inferInstanceAs (Decidable (∀ view ∈ s.handed elapsedMs walInflightMax, Settles s.snapshot view))
  | .saved _ =>
    inferInstanceAs (Decidable (s.task.isSome = true → s.server.run.node.snapshotPendingDirty = true))
  | .recvPeer _ => isTrue trivial
  | .recvClient _ => isTrue trivial
  | .maybeSnapshot => isTrue trivial
  | .saveFailed => isTrue trivial
  | .stop => isTrue trivial
  | .persisted _ => isTrue trivial

def Keeps (s : Ledger) (event : Step) : Prop := Finds s event ∧ Fresh s event

instance (s : Ledger) (event : Step) : Decidable (Keeps s event) :=
  inferInstanceAs (Decidable (_ ∧ _))

/-! ## The pending snapshot -/

/-- A pending snapshot is the one that the worker saves, and one whose data is complete is
known. -/
structure Pending (r : Node) (task : Option SnapshotMeta) (known : List SnapshotMeta) : Prop where
  ready : r.snapshotDataReadyFlag = true → r.snapshotPendingDirty = true
  saved : r.snapshotDataReadyFlag = true → r.snapshotPending ∈ known
  task : ∀ taken, task = some taken → r.snapshotPendingDirty = true → r.snapshotPending = taken

variable {r r' : Node} {task : Option SnapshotMeta} {known : List SnapshotMeta}

theorem Pending.leaves (pending : Pending r task known) (leaves : Leaves True r r') :
    Pending r' task known := by
  rcases leaves with same | ⟨-, dirty, ready⟩
  · simp only [saving, Prod.mk.injEq] at same
    obtain ⟨snapshot, dirty, ready⟩ := same
    constructor
    · rw [ready, dirty]
      exact pending.ready
    · rw [ready, snapshot]
      exact pending.saved
    · rw [dirty, snapshot]
      exact pending.task
  · constructor
    · intro set
      exact absurd (ready.symm.trans set) (by simp)
    · intro set
      exact absurd (ready.symm.trans set) (by simp)
    · intro taken _ set
      exact absurd (dirty.symm.trans set) (by simp)

theorem Pending.more (pending : Pending r task known) (more : List SnapshotMeta) :
    Pending r task (known ++ more) :=
  ⟨pending.ready, fun set => List.mem_append_left more (pending.saved set), pending.task⟩

theorem Pending.idle (pending : Pending r task known) : Pending r none known :=
  ⟨pending.ready, pending.saved, nofun⟩

/-! ## Calls of the node -/

theorem sendClients_leaves (run : Run) (clients : List ClientMessage) :
    Leaves True run.node (sendClients run clients).node := by
  induction clients generalizing run with
  | nil => exact .refl _
  | cons msg rest ih =>
    have sent : Leaves True run.node (run.step (.recvClient msg)).node :=
      raftRecvfromClient_leaves run.node msg
    exact sent.trans (ih (run.step (.recvClient msg)))

theorem provideChunks_leaves (run : Run) (chunks : List (Int × Int × Nat)) :
    Leaves True run.node (provideChunks run chunks).node := by
  induction chunks generalizing run with
  | nil => exact .refl _
  | cons chunk rest ih =>
    have provided : Leaves True run.node
        (run.step (.snapshotDataProvided chunk.1 chunk.2.1 chunk.2.2)).node :=
      raftSnapshotDataProvided_leaves run.node chunk.1 chunk.2.1 chunk.2.2
    exact provided.trans (ih _)

theorem reportApplied_leaves (run : Run) (idx : Option Int) :
    Leaves True run.node (reportApplied run idx).node := by
  cases idx with
  | none => exact .refl _
  | some applied => exact raftApplyComplete_leaves run.node applied fun _ => trivial

theorem live_leaves (s : Server) (disk : List Persist) (bundle : ReadyBundle) (input : LiveInput) :
    Leaves True s.run.node (kServerProcessBundleLive s disk bundle input).run.node := by
  have asked := sendClients_leaves s.run input.clients
  have applied := asked.trans (reportApplied_leaves _ bundle.appliedIndex)
  have installed := applied.trans (reportApplied_leaves _ (bundle.installIndex input))
  exact installed.trans (provideChunks_leaves _ input.chunks)

theorem taken_leaves (s : Server) (elapsedMs : Nat) (replace : List ClientMessage) :
    Leaves True (raftAdvance s.run.node elapsedMs).1 (s.taken elapsedMs replace).run.node := by
  have asked : Leaves True (raftAdvance s.run.node elapsedMs).1
      (replace.foldl (fun r msg => (raftRecvfromClient r msg).1) (raftAdvance s.run.node elapsedMs).1) :=
    .foldl _ raftRecvfromClient_leaves replace _
  exact asked.trans (.of_fields rfl rfl rfl)

theorem drive_leaves (s : Server) (elapsedMs walInflightMax : Nat) (replace : List ClientMessage)
    (input : LiveInput) :
    Leaves True s.run.node (kServerDrive s elapsedMs walInflightMax replace input).run.node := by
  have advanced : Leaves True s.run.node (raftAdvance s.run.node elapsedMs).1 :=
    raftAdvance_leaves s.run.node elapsedMs fun _ => trivial
  have took := advanced.trans (taken_leaves s elapsedMs replace)
  unfold kServerDrive
  split
  · exact .refl _
  · dsimp only
    split
    · exact took
    · exact took.trans (live_leaves _ _ _ _)

theorem pollWal_leaves (s : Server) (input : LiveInput) :
    Leaves True s.run.node (kServerPollWal s input).run.node := by
  unfold kServerPollWal
  split
  · exact .refl _
  · rename_i first rest _
    have lived : Leaves True s.run.node (s.lived first input).run.node := by
      unfold Server.lived
      split
      · exact .refl _
      · exact live_leaves _ _ _ _
    dsimp only
    split
    · have stored : (storeFirst (s.lived first input).run).node = (s.lived first input).run.node := by
        unfold storeFirst
        split
        · rfl
        · rfl
      rw [stored]
      exact lived
    · refine lived.trans ?_
      unfold settleFirst
      split
      · exact .refl _
      · exact completeView_leaves _ _ fun _ => trivial

/-! ## The invariant -/

structure Backed (s : Ledger) : Prop where
  pending : Pending s.server.run.node s.task s.known
  posted : ∀ posted ∈ s.server.posted, posted.view.snapshotDirty = true →
    viewSnapshot posted.view ∈ s.known
  cached : 0 < s.snapshot.lastIndex → s.snapshot ∈ s.known
  records : ∀ record ∈ s.records, 0 < record.lastIncludedIndex → recordSnapshot record ∈ s.known

theorem Backed.more {s : Ledger} (backed : Backed s) (more : List SnapshotMeta) :
    Backed { s with known := s.known ++ more } where
  pending := backed.pending.more more
  posted := fun item member dirty => List.mem_append_left more (backed.posted item member dirty)
  cached := fun positive => List.mem_append_left more (backed.cached positive)
  records := fun record member based =>
    List.mem_append_left more (backed.records record member based)

theorem maybeSnapshot_backed {s : Ledger} (backed : Backed s) : Backed s.maybeSnapshot := by
  obtain ⟨pending, posted, cached, records⟩ := backed
  unfold Ledger.maybeSnapshot
  split
  · exact ⟨pending, posted, cached, records⟩
  · rename_i free
    simp only [Bool.or_eq_true, not_or, Bool.not_eq_true] at free
    refine ⟨?_, posted, cached, records⟩
    change Pending (raftSnapshot s.server.run.node).1 (if _ then _ else _) s.known
    unfold raftSnapshot
    split
    · exact pending.idle
    · rename_i idle
      simp only [Bool.or_eq_true, not_or, Bool.not_eq_true] at idle
      have clear : s.server.run.node.snapshotPendingDirty = false := idle.1.1.2
      have unready : s.server.run.node.snapshotDataReadyFlag = false := by
        by_contra set
        have dirty := pending.ready (by simpa using set)
        exact absurd (clear.symm.trans dirty) (by simp)
      dsimp only
      split
      · constructor
        · intro set
          exact absurd (unready.symm.trans set) (by simp)
        · intro set
          exact absurd (unready.symm.trans set) (by simp)
        · intro taken _ set
          exact absurd (clear.symm.trans set) (by simp)
      · constructor
        · intro set
          exact absurd (unready.symm.trans set) (by simp)
        · intro set
          exact absurd (unready.symm.trans set) (by simp)
        · intro taken same _
          exact Option.some.inj same

theorem saved_backed {s : Ledger} {totalSize : Int} (backed : Backed s)
    (finds : Finds s (.saved totalSize)) : Backed (s.step (.saved totalSize)) := by
  obtain ⟨pending, posted, cached, records⟩ := backed
  cases held : s.task with
  | none =>
    have same : s.act (.saved totalSize) = s := by
      simp only [Ledger.act, Ledger.saved, held]
    unfold Ledger.step
    rw [same]
    exact Backed.more ⟨pending, posted, cached, records⟩ _
  | some taken =>
    have dirty : s.server.run.node.snapshotPendingDirty = true := finds (by rw [held]; rfl)
    have same := pending.task taken held dirty
    by_cases stopping : s.server.stopping = true
    · have dropped : s.act (.saved totalSize) = { s with task := none } := by
        simp only [Ledger.act, Ledger.saved, held, stopping, if_true]
      unfold Ledger.step
      rw [dropped]
      exact @Backed.more { s with task := none } ⟨pending.idle, posted, cached, records⟩ _
    · have reported : s.act (.saved totalSize) =
          { s with
            server := s.server.step (.snapshotDataReady totalSize)
            task := none } := by
        simp only [Ledger.act, Ledger.saved, held, stopping, Bool.false_eq_true, if_false]
      have made : s.takenUp (.saved totalSize) = [{ taken with size := totalSize }] := by
        simp only [Ledger.takenUp, held, stopping, Bool.false_eq_true, if_false,
          Option.toList_some, List.map_cons, List.map_nil]
      unfold Ledger.step
      rw [reported, made]
      refine ⟨?_, fun item member set => List.mem_append_left _ (posted item member set),
        fun positive => List.mem_append_left _ (cached positive),
        fun record member positive => List.mem_append_left _ (records record member positive)⟩
      change Pending (raftSnapshotDataReady s.server.run.node totalSize).1 none _
      unfold raftSnapshotDataReady
      split
      · exact (pending.more _).idle
      · constructor
        · exact fun _ => dirty
        · intro _
          change { s.server.run.node.snapshotPending with size := totalSize } ∈ _
          rw [same]
          exact List.mem_append_right _ (List.mem_singleton_self _)
        · exact nofun

/-- The view of a round brings a snapshot that is known, or names the base of the log. -/
theorem handed_known {s : Ledger} {elapsedMs walInflightMax : Nat} {view : Persist}
    (backed : Backed s) (handed : s.handed elapsedMs walInflightMax = some view)
    (dirty : view.snapshotDirty = true) :
    viewSnapshot view ∈ s.known ++ received (raftAdvance s.server.run.node elapsedMs).1 := by
  have advanced : Leaves True s.server.run.node (raftAdvance s.server.run.node elapsedMs).1 :=
    raftAdvance_leaves s.server.run.node elapsedMs fun _ => trivial
  have pending := backed.pending.leaves advanced
  have built : view = persistView (raftAdvance s.server.run.node elapsedMs).1 := by
    unfold Ledger.handed at handed
    split at handed
    · exact raftAdvance_persist handed
    · cases handed
  rw [built] at dirty ⊢
  generalize (raftAdvance s.server.run.node elapsedMs).1 = node at pending dirty ⊢
  cases snapshot : dirtySnapshot node with
  | none =>
    unfold persistView at dirty
    rw [snapshot] at dirty
    cases dirty
  | some meta_ =>
    have named : viewSnapshot (persistView node) = meta_ := by
      unfold persistView viewSnapshot
      rw [snapshot]
    rw [named]
    unfold dirtySnapshot at snapshot
    split at snapshot
    · rename_i waits
      cases snapshot
      apply List.mem_append_right
      unfold received
      rw [if_pos waits]
      exact List.mem_singleton_self _
    · split at snapshot
      · rename_i complete
        cases snapshot
        exact List.mem_append_left _ (pending.saved (Bool.and_eq_true_iff.mp complete).2)
      · cases snapshot

/-- What a record says is the view's own snapshot, or what the cache says. -/
theorem recordSnapshot_of (snapshot : SnapshotMeta) (view : Persist)
    (settles : Settles snapshot view) (based : 0 < view.lastIncludedIndex) :
    (view.snapshotDirty = true ∧ recordSnapshot (recordOf (cacheOf snapshot) view) = viewSnapshot view) ∨
      (0 < snapshot.lastIndex ∧ recordSnapshot (recordOf (cacheOf snapshot) view) = snapshot) := by
  cases dirty : view.snapshotDirty with
  | true =>
    left
    refine ⟨rfl, ?_⟩
    simp [recordSnapshot, recordOf, viewSnapshot, dirty]
  | false =>
    right
    rcases settles with brings | baseless | ⟨index, term⟩
    · rw [dirty] at brings
      cases brings
    · omega
    · refine ⟨index ▸ based, ?_⟩
      simp [recordSnapshot, recordOf, cacheOf, dirty, ← index, ← term]

theorem drive_backed {s : Ledger} {elapsedMs walInflightMax : Nat} {replace : List ClientMessage}
    {input : LiveInput} (backed : Backed s)
    (finds : Finds s (.drive elapsedMs walInflightMax replace input)) :
    Backed (s.step (.drive elapsedMs walInflightMax replace input)) := by
  have sourced := fun view => @handed_known s elapsedMs walInflightMax view backed
  obtain ⟨pending, posted, cached, records⟩ := backed
  constructor
  · exact (pending.leaves (drive_leaves ..)).more _
  · intro item member dirty
    have source : item ∈ s.server.posted ∨
        s.handed elapsedMs walInflightMax = some item.view := by
      change item ∈ (kServerDrive s.server elapsedMs walInflightMax replace input).posted at member
      unfold kServerDrive at member
      split at member
      · exact .inl member
      · rename_i runs
        have together : item ∈ s.server.posted ++
            (raftAdvance s.server.run.node elapsedMs).2.persist.toList.map
              (s.server.post elapsedMs replace) := by
          dsimp only at member
          split at member
          · exact member
          · exact member
        rcases List.mem_append.mp together with old | new
        · exact .inl old
        · obtain ⟨view, handed, rfl⟩ := List.mem_map.mp new
          right
          unfold Ledger.handed
          rw [if_pos (by simpa using runs)]
          exact Option.mem_toList.mp handed
    rcases source with old | new
    · exact List.mem_append_left _ (posted item old dirty)
    · exact sourced item.view new dirty
  · exact fun positive => List.mem_append_left _ (cached positive)
  · intro record member based
    rcases List.mem_append.mp member with old | new
    · exact List.mem_append_left _ (records record old based)
    · obtain ⟨view, handed, rfl⟩ := List.mem_map.mp new
      have given := Option.mem_toList.mp handed
      rcases recordSnapshot_of s.snapshot view (finds view given) based with
        ⟨dirty, same⟩ | ⟨positive, same⟩
      · rw [same]
        exact sourced view given dirty
      · rw [same]
        exact List.mem_append_left _ (cached positive)

theorem persisted_backed {s : Ledger} {input : LiveInput} (backed : Backed s) :
    Backed (s.persisted input) := by
  obtain ⟨pending, posted, cached, records⟩ := backed
  constructor
  · exact pending.leaves (pollWal_leaves ..)
  · intro item member
    apply posted
    change item ∈ (kServerPollWal s.server input).posted at member
    unfold kServerPollWal at member
    split at member
    · exact member
    · rename_i first rest shape
      rw [shape]
      exact List.mem_cons_of_mem first member
  · change 0 < (match s.server.posted with
      | [] => s.snapshot
      | first :: _ => if first.view.snapshotDirty then viewSnapshot first.view else s.snapshot).lastIndex →
        (match s.server.posted with
      | [] => s.snapshot
      | first :: _ => if first.view.snapshotDirty then viewSnapshot first.view else s.snapshot) ∈ s.known
    cases shape : s.server.posted with
    | nil => exact cached
    | cons first rest =>
      dsimp only
      split
      · rename_i dirty
        exact fun _ => posted first (by rw [shape]; exact List.mem_cons_self) dirty
      · exact cached
  · exact records

theorem act_known (s : Ledger) (event : Step) : (s.act event).known = s.known := by
  cases event with
  | maybeSnapshot =>
    simp only [Ledger.act, Ledger.maybeSnapshot]
    split <;> rfl
  | saved totalSize =>
    simp only [Ledger.act, Ledger.saved]
    split
    · rfl
    · split <;> rfl
  | recvPeer msg => rfl
  | recvClient msg => rfl
  | saveFailed => rfl
  | stop => rfl
  | drive elapsedMs walInflightMax replace input => rfl
  | persisted input => rfl

/-- What a step makes known takes nothing away. -/
theorem Backed.act {s : Ledger} {event : Step} (backed : Backed (s.act event)) :
    Backed (s.step event) := by
  unfold Ledger.step
  rw [← act_known s event]
  exact backed.more _

theorem step_backed {s : Ledger} {event : Step} (backed : Backed s) (finds : Finds s event) :
    Backed (s.step event) := by
  have called {server : Server} (leaves : Leaves True s.server.run.node server.run.node)
      (same : server.posted = s.server.posted) : Backed { s with server := server } := by
    refine ⟨backed.pending.leaves leaves, ?_, backed.cached, backed.records⟩
    change ∀ posted ∈ server.posted, _
    rw [same]
    exact backed.posted
  cases event with
  | recvPeer msg =>
    exact Backed.act (called (raftRecvfromPeer_leaves s.server.run.node msg fun _ => trivial) rfl)
  | recvClient msg => exact Backed.act (called (raftRecvfromClient_leaves s.server.run.node msg) rfl)
  | maybeSnapshot => exact Backed.act (maybeSnapshot_backed backed)
  | saved totalSize => exact saved_backed backed finds
  | saveFailed =>
    exact Backed.act ⟨backed.pending.idle, backed.posted, backed.cached, backed.records⟩
  | stop => exact Backed.act (called (raftStop_leaves s.server.run.node) rfl)
  | drive elapsedMs walInflightMax replace input => exact drive_backed backed finds
  | persisted input => exact Backed.act (persisted_backed backed)

/-! ## One snapshot for each index -/

/-- No two known snapshots share an index. -/
def Single (known : List SnapshotMeta) : Prop :=
  ∀ a ∈ known, ∀ b ∈ known, a.lastIndex = b.lastIndex → a = b

theorem received_single (r : Node) : Single (received r) := by
  unfold received
  split
  · intro a first b second _
    rw [List.mem_singleton.mp first, List.mem_singleton.mp second]
  · exact fun a none => absurd none List.not_mem_nil

theorem takenUp_single (s : Ledger) (event : Step) : Single (s.takenUp event) := by
  cases event with
  | recvPeer msg => exact received_single _
  | drive elapsedMs walInflightMax replace input => exact received_single _
  | saved totalSize =>
    change Single (if s.server.stopping then [] else _)
    split
    · exact fun a none => absurd none List.not_mem_nil
    · cases s.task with
      | none => exact fun a none => absurd none List.not_mem_nil
      | some taken =>
        intro a first b second _
        rw [List.mem_singleton.mp first, List.mem_singleton.mp second]
  | recvClient msg => exact fun a none => absurd none List.not_mem_nil
  | maybeSnapshot => exact fun a none => absurd none List.not_mem_nil
  | saveFailed => exact fun a none => absurd none List.not_mem_nil
  | stop => exact fun a none => absurd none List.not_mem_nil
  | persisted input => exact fun a none => absurd none List.not_mem_nil

theorem step_single {s : Ledger} {event : Step} (single : Single s.known) (fresh : Fresh s event) :
    Single (s.step event).known := by
  intro a first b second same
  rcases List.mem_append.mp first with oldA | newA
  · rcases List.mem_append.mp second with oldB | newB
    · exact single a oldA b oldB same
    · exact fresh b newB a oldA same
  · rcases List.mem_append.mp second with oldB | newB
    · exact (fresh a newA b oldB same.symm).symm
    · exact takenUp_single s event a newA b newB same

/-! ## Runs -/

def Serves (cond : Ledger → Step → Prop) (cfg : CreateConfig) : Ledger → Prop :=
  Reaches (fun s => Ledger.start cfg = some s) Ledger.step cond

theorem created_pending {cfg : CreateConfig} {node : Node} (made : raftCreate cfg = some node)
    (known : List SnapshotMeta) : Pending node none known := by
  obtain ⟨voters, leaves⟩ := raftCreate_leaves made
  have blank : Pending (freshNode cfg voters) none known :=
    ⟨fun set => Bool.noConfusion set, fun set => Bool.noConfusion set, nofun⟩
  exact blank.leaves leaves

theorem start_backed {cfg : CreateConfig} {s : Ledger} (created : Ledger.start cfg = some s) :
    Backed s := by
  obtain ⟨server, begun, rfl⟩ := Option.map_eq_some_iff.mp created
  obtain ⟨run, started, rfl⟩ := Option.map_eq_some_iff.mp begun
  obtain ⟨node, made, rfl⟩ := Option.map_eq_some_iff.mp started
  have pending := created_pending made (cfg.restore.toList.map viewSnapshot)
  generalize cfg.restore = restore at pending ⊢
  refine ⟨pending, fun _ member => absurd member List.not_mem_nil, ?_,
    fun _ member => absurd member List.not_mem_nil⟩
  cases restore with
  | none => exact fun positive => absurd positive (Int.lt_irrefl 0)
  | some view => exact fun _ => List.mem_singleton_self _

theorem start_single {cfg : CreateConfig} {s : Ledger} (created : Ledger.start cfg = some s) :
    Single s.known := by
  obtain ⟨server, -, rfl⟩ := Option.map_eq_some_iff.mp created
  dsimp only
  cases cfg.restore with
  | none => exact fun a none => absurd none List.not_mem_nil
  | some view =>
    intro a first b second _
    rw [List.mem_singleton.mp first, List.mem_singleton.mp second]

/-- In every run whose steps meet the condition, a record with a base carries the index, term,
size and configuration of a snapshot there is, and of every snapshot there is at that index. -/
theorem records_coherent {cfg : CreateConfig} {s : Ledger} (reached : Serves Keeps cfg s) :
    ∀ record ∈ s.records, 0 < record.lastIncludedIndex →
      recordSnapshot record ∈ s.known ∧ ∀ snapshot ∈ s.known,
        snapshot.lastIndex = record.lastIncludedIndex → recordSnapshot record = snapshot := by
  have backed : Backed s := by
    refine Lib.Runs.Reaches.invariant ?_ ?_ reached
    · exact fun s created => start_backed created
    · exact fun s event backed keeps => step_backed backed keeps.1
  have single : Single s.known := by
    clear backed
    unfold Serves at reached
    induction reached with
    | start begins => exact start_single begins
    | step _ keeps ih => exact step_single ih keeps.2
  intro record member based
  have known := backed.records record member based
  exact ⟨known, fun snapshot there same => single _ known snapshot there same.symm⟩

/-! Three voters; this node is 1 and follows node 2, which sends it a snapshot at index 5 in
one piece, and then the entry at index 6. -/

def behind : CreateConfig := ⟨1, [1, 2, 3], false, 10, 100, 200, 7, 1024, 4, none⟩

def installed : LiveInput := ⟨true, [], []⟩

def wholeSnapshot : PeerMessage :=
  ⟨2, 1, .installSnapshot
    { term := 1
      snapshotLastIndex := 5
      snapshotLastTerm := 1
      snapshotOffset := 0
      snapshotDataSize := 3
      snapshotChunkSize := 3
      snapshotCfgOld := [1, 2, 3]
      snapshotCfgNew := [1, 2, 3]
      snapshotCfgLearners := []
      snapshotDone := true
      leaderId := 2 }⟩

def nextEntry : PeerMessage := ⟨2, 1, .appendEntries ⟨1, 5, 1, 5, 0, [⟨1, 0, [65], [], [], []⟩], 2⟩⟩

def installEvents : List Step :=
  [.drive 0 4 [] installed, .recvPeer wholeSnapshot, .drive 0 4 [] installed]

/-- Once the record of the install is on disk, the next record carries its snapshot. -/
theorem next_record_coherent : ∃ s, Serves Keeps behind s ∧ ∃ record ∈ s.records,
    record.lastIncludedIndex = 5 ∧ record.entries ≠ [] ∧ recordSnapshot record ∈ s.known ∧
    ∀ snapshot ∈ s.known, snapshot.lastIndex = record.lastIncludedIndex →
      recordSnapshot record = snapshot := by
  obtain ⟨s, reached, tested⟩ := Lib.Runs.Reaches.exists_of_through Ledger.step Keeps (Ledger.start behind)
    (fun _ => id)
    (fun s => s.records.any fun record =>
      decide (record.lastIncludedIndex = 5) && decide (record.entries ≠ []))
    (installEvents ++ [.persisted installed, .recvPeer nextEntry, .drive 0 4 [] installed])
    (by decide +kernel)
  simp only [List.any_eq_true, Bool.and_eq_true, decide_eq_true_eq] at tested
  obtain ⟨record, member, base, full⟩ := tested
  have based : 0 < record.lastIncludedIndex := by omega
  exact ⟨s, reached, record, member, base, full, records_coherent reached record member based⟩

/-- While that record is on its way, the next one names the base of the install with the size
and the configuration that the server had before: no snapshot at all. -/
theorem next_record_mixed : ∃ s, Serves (fun _ _ => True) behind s ∧ ∃ record ∈ s.records,
    record.lastIncludedIndex = 5 ∧ record.snapshotSize = 0 ∧ record.cfgNew = [] ∧
    ∀ snapshot ∈ s.known, snapshot.lastIndex = 5 → snapshot.size = 3 ∧ snapshot.cfgNew = [1, 2, 3] := by
  obtain ⟨s, reached, tested⟩ := Lib.Runs.Reaches.exists_of_through Ledger.step (fun _ _ => True)
    (Ledger.start behind) (fun _ => id)
    (fun s => (s.records.any fun record =>
        decide (record.lastIncludedIndex = 5) && decide (record.snapshotSize = 0) &&
          decide (record.cfgNew = [])) &&
      s.known.all fun snapshot => decide (snapshot.lastIndex = 5 →
        snapshot.size = 3 ∧ snapshot.cfgNew = [1, 2, 3]))
    (installEvents ++ [.recvPeer nextEntry, .drive 0 4 [] installed]) (by decide +kernel)
  simp only [List.any_eq_true, List.all_eq_true, Bool.and_eq_true, decide_eq_true_eq] at tested
  obtain ⟨⟨record, member, ⟨base, size⟩, masks⟩, every⟩ := tested
  exact ⟨s, reached, record, member, base, size, masks, every⟩

end Kynovo.Server.BaseRecords
