import Kynovo.Lib.Runs
import Kynovo.Raft.Frontier
import Kynovo.Raft.SaveFrame

/-! A snapshot that the node takes itself. The caller saves the state in the background
and reports the size of the saved data; only then may the snapshot be persisted. The
report does not name the save it is about, so a run keeps beside each report which save
the caller means. -/
namespace Kynovo.Raft.LocalSave
open Kynovo.Lib
open Kynovo.Raft.SaveFrame
open Kynovo.Wal.Record

/-- A run and its saves: how many snapshots the node has taken, the index that the last
one captured, and what was reported since then, as a save and a size. -/
structure Saving where
  run : Run
  taken : Nat
  index : Int
  report : Option (Nat × Int)

/-- `save` is the save a report is about; other calls have no use for it. Only a call
that succeeds counts. -/
def Saving.step (s : Saving) (op : Op) (save : Nat) : Saving :=
  match op with
  | .snapshot =>
    if (raftSnapshot s.run.node).2 = 0 then
      ⟨s.run.step .snapshot, s.taken + 1, s.run.node.lastApplied, none⟩
    else { s with run := s.run.step .snapshot }
  | .snapshotDataReady totalSize =>
    if (raftSnapshotDataReady s.run.node totalSize).2 = 0 then
      { s with
        run := s.run.step (.snapshotDataReady totalSize)
        report := some (save, totalSize) }
    else { s with run := s.run.step (.snapshotDataReady totalSize) }
  | op => { s with run := s.run.step op }

def Saving.start (cfg : CreateConfig) : Option Saving :=
  (Run.start cfg).map (fun run => ⟨run, 0, 0, none⟩)

/-- The runs whose steps all meet a condition on the state before the step. -/
def Saves (cond : Saving → Op → Nat → Prop) (cfg : CreateConfig) : Saving → Prop :=
  Runs.Reaches (fun s => Saving.start cfg = some s) (fun s (call : Op × Nat) => s.step call.1 call.2)
    (fun s call => cond s call.1 call.2)

/-- Calls that pass their checks reach a state with a property that was computed. -/
theorem Saves.exists_of_through (cond : Saving → Op → Nat → Prop)
    [∀ s op save, Decidable (cond s op save)] (cfg : CreateConfig) (test : Saving → Bool)
    (calls : List (Op × Nat))
    (passed : ((Saving.start cfg).bind (fun s => Runs.through (fun s call => s.step call.1 call.2)
      (fun s call => cond s call.1 call.2) s calls)).any test = true) :
    ∃ s, Saves cond cfg s ∧ test s = true :=
  Runs.Reaches.exists_of_through _ _ (Saving.start cfg) (fun _ => id) test calls passed

def isReport : Op → Bool
  | .snapshotDataReady _ => true
  | _ => false

/-- A report comes while the snapshot of the save it is about still waits for it. -/
def ReportsPending (s : Saving) (op : Op) (save : Nat) : Prop :=
  isReport op = true → s.run.node.phase = .running →
    s.run.node.snapshotPendingDirty = true ∧ save = s.taken

instance (s : Saving) (op : Op) (save : Nat) : Decidable (ReportsPending s op save) :=
  inferInstanceAs (Decidable (_ → _ → _ ∧ _))

/-! ## The pairing of a snapshot and its report -/

/-- A snapshot whose data is ready is pending and was reported with the size it has. -/
structure Paired (r : Node) (taken : Nat) (index : Int) (report : Option (Nat × Int)) : Prop where
  reported : r.snapshotDataReadyFlag = true →
    r.snapshotPendingDirty = true ∧ report = some (taken, r.snapshotPending.size)
  captured : r.snapshotPendingDirty = true → 0 < taken ∧ r.snapshotPending.lastIndex = index

variable {r r' : Node} {taken : Nat} {index : Int} {report : Option (Nat × Int)}

theorem Paired.of_leaves (paired : Paired r taken index report) (leaves : Leaves True r r') :
    Paired r' taken index report := by
  rcases leaves with same | ⟨-, pending, ready⟩
  · obtain ⟨snapshot, flags⟩ := Prod.mk.inj same
    obtain ⟨pending, ready⟩ := Prod.mk.inj flags
    constructor
    · intro set
      rw [pending, snapshot]
      exact paired.reported (ready ▸ set)
    · intro set
      rw [snapshot]
      exact paired.captured (pending ▸ set)
  · constructor
    · intro set
      rw [ready] at set
      cases set
    · intro set
      rw [pending] at set
      cases set

/-- Taking a snapshot: nothing is ready before, so nothing is ready after. -/
theorem Paired.raftSnapshot (paired : Paired r taken index report) :
    if (raftSnapshot r).2 = 0 then Paired (Raft.raftSnapshot r).1 (taken + 1) r.lastApplied none
    else Paired (Raft.raftSnapshot r).1 taken index report := by
  unfold Raft.raftSnapshot
  split
  · exact paired
  · rename_i free
    have idle : r.snapshotPendingDirty = false := by
      simp only [Bool.or_eq_true, not_or, Bool.not_eq_true] at free
      exact free.1.1.2
    have unready : r.snapshotDataReadyFlag ≠ true := by
      intro set
      exact Bool.noConfusion (idle.symm.trans (paired.reported set).1)
    dsimp only
    split
    · constructor
      · intro set
        exact absurd set unready
      · intro set
        exact Bool.noConfusion (idle.symm.trans set)
    · constructor
      · intro set
        exact absurd set unready
      · intro _
        exact ⟨Nat.succ_pos taken, rfl⟩

/-- A report of the pending snapshot's save. -/
theorem Paired.raftSnapshotDataReady {save : Nat} (totalSize : Int)
    (paired : Paired r taken index report)
    (pending : r.phase = .running → r.snapshotPendingDirty = true ∧ save = taken) :
    if (raftSnapshotDataReady r totalSize).2 = 0 then
      Paired (Raft.raftSnapshotDataReady r totalSize).1 taken index (some (save, totalSize))
    else Paired (Raft.raftSnapshotDataReady r totalSize).1 taken index report := by
  unfold Raft.raftSnapshotDataReady
  split
  · exact paired
  · rename_i phase
    obtain ⟨dirty, rfl⟩ := pending (not_not.mp phase)
    constructor
    · intro _
      exact ⟨dirty, rfl⟩
    · exact paired.captured

def Saving.Sound (s : Saving) : Prop := Paired s.run.node s.taken s.index s.report

theorem step_sound {s : Saving} {op : Op} {save : Nat} (sound : s.Sound)
    (meets : ReportsPending s op save) : (s.step op save).Sound := by
  cases op with
  | recvPeer msg => exact sound.of_leaves (raftRecvfromPeer_leaves s.run.node msg (fun _ => trivial))
  | recvClient msg => exact sound.of_leaves (raftRecvfromClient_leaves s.run.node msg)
  | advance elapsedMs =>
    exact (sound.of_leaves (raftAdvance_leaves s.run.node elapsedMs (fun _ => trivial))).of_leaves
      (.of_fields rfl rfl rfl)
  | complete =>
    refine sound.of_leaves ?_
    unfold Saving.step Run.step settleFirst
    dsimp only
    split
    · exact .refl s.run.node
    · exact completeView_leaves s.run.node _ (fun _ => trivial)
  | applyComplete appliedIndex =>
    exact sound.of_leaves (raftApplyComplete_leaves s.run.node appliedIndex (fun _ => trivial))
  | snapshot =>
    have taken := Paired.raftSnapshot sound
    unfold Saving.step
    dsimp only
    split
    · rename_i success
      rw [if_pos success] at taken
      exact taken
    · rename_i refused
      rw [if_neg refused] at taken
      exact taken
  | snapshotDataReady totalSize =>
    have told := Paired.raftSnapshotDataReady totalSize sound (meets rfl)
    unfold Saving.step
    dsimp only
    split
    · rename_i success
      rw [if_pos success] at told
      exact told
    · rename_i refused
      rw [if_neg refused] at told
      exact told
  | snapshotDataProvided followerId byteOffset size =>
    exact sound.of_leaves (raftSnapshotDataProvided_leaves s.run.node followerId byteOffset size)
  | stop => exact sound.of_leaves (raftStop_leaves s.run.node)

/-! ## Runs -/

theorem restoreNode_leaves {p : Persist} {restored : Node} (given : restoreNode r p = some restored) :
    Leaves True r restored := by
  unfold restoreNode at given
  split at given
  · cases given
  · obtain ⟨voting, votersGiven, withVoters⟩ := Option.bind_eq_some_iff.mp given
    obtain ⟨configured, learnersGiven, rest⟩ := Option.bind_eq_some_iff.mp withVoters
    obtain ⟨log, -, applied⟩ := Option.bind_eq_some_iff.mp rest
    have voted : Leaves True r voting := by
      unfold restoreVoters at votersGiven
      split at votersGiven
      · cases votersGiven
        exact .of_fields rfl rfl rfl
      · obtain ⟨old, -, more⟩ := Option.bind_eq_some_iff.mp votersGiven
        obtain ⟨new, -, shape⟩ := Option.bind_eq_some_iff.mp more
        cases shape
        exact .of_fields rfl rfl rfl
    have learned : Leaves True voting configured := by
      unfold restoreLearners at learnersGiven
      split at learnersGiven
      · cases learnersGiven
        exact .refl voting
      · obtain ⟨learners, -, shape⟩ := Option.bind_eq_some_iff.mp learnersGiven
        cases shape
        exact .of_fields rfl rfl rfl
    have trusted : Leaves True r { configured with
        log := log
        durableIndex := raftLogLastIndex log
        durableConfirm := raftLogLastIndex log
        persistSyncedIndex := raftLogLastIndex log } :=
      (voted.trans learned).trans (.of_fields rfl rfl rfl)
    have inForce := trusted.trans (raftApplyConfigFromLog_leaves _)
    dsimp only at applied
    split at applied
    · rename_i shape
      rw [shape] at inForce
      cases applied
      exact inForce.trans (rebuildPeers_leaves _)
    · cases applied

/-- A created node has not taken a snapshot. -/
theorem raftCreate_leaves {cfg : CreateConfig} {node : Node} (made : raftCreate cfg = some node) :
    ∃ voters, Leaves True (freshNode cfg voters) node := by
  unfold raftCreate at made
  split at made
  · cases made
  · obtain ⟨voters, -, rest⟩ := Option.bind_eq_some_iff.mp made
    obtain ⟨restored, given, shape⟩ := Option.bind_eq_some_iff.mp rest
    cases shape
    have leaves : Leaves True (freshNode cfg voters) restored := by
      unfold restoreFrom at given
      split at given
      · cases given
        exact .refl _
      · exact restoreNode_leaves given
    exact ⟨voters, leaves.trans (.of_fields rfl rfl rfl)⟩

theorem start_sound {cfg : CreateConfig} {s : Saving} (created : Saving.start cfg = some s) :
    s.Sound := by
  obtain ⟨run, started, rfl⟩ := Option.map_eq_some_iff.mp created
  obtain ⟨node, made, rfl⟩ := Option.map_eq_some_iff.mp started
  obtain ⟨voters, leaves⟩ := raftCreate_leaves made
  have blank : Paired (freshNode cfg voters) 0 0 none :=
    ⟨fun set => Bool.noConfusion set, fun set => Bool.noConfusion set⟩
  exact blank.of_leaves leaves

theorem saves_sound {cfg : CreateConfig} {s : Saving} (reached : Saves ReportsPending cfg s) :
    s.Sound := by
  refine Runs.Reaches.invariant ?_ ?_ reached
  · intro s created
    exact start_sound created
  · intro s call sound meets
    exact step_sound sound meets

/-- Where every report is about the snapshot that waits for it, a view that names a
snapshot of the node's own names the last one taken, that one was reported, and the view
has the reported size. -/
theorem local_view_reported {cfg : CreateConfig} {s : Saving} {elapsedMs : Nat} {view : Persist}
    (reached : Saves ReportsPending cfg s)
    (handed : (raftAdvance s.run.node elapsedMs).2.persist = some view)
    (dirty : view.snapshotDirty = true)
    (own : (raftAdvance s.run.node elapsedMs).1.snapshotInstallPending = false) :
    0 < s.taken ∧ view.lastIncludedIndex = s.index ∧
      s.report = some (s.taken, view.snapshotSize) := by
  have paired := Paired.of_leaves (saves_sound reached) (raftAdvance_leaves s.run.node elapsedMs (fun _ => trivial))
  rw [Frontier.raftAdvance_persist handed] at dirty ⊢
  generalize (raftAdvance s.run.node elapsedMs).1 = node at dirty own paired ⊢
  by_cases waits : (node.snapshotPendingDirty && node.snapshotDataReadyFlag) = true
  · have offered : dirtySnapshot node = some node.snapshotPending := by
      simp [dirtySnapshot, own, waits]
    obtain ⟨pending, ready⟩ := Bool.and_eq_true_iff.mp waits
    obtain ⟨started, captured⟩ := paired.captured pending
    simp only [persistView, offered]
    exact ⟨started, captured, (paired.reported ready).2⟩
  · have nothing : dirtySnapshot node = none := by
      simp [dirtySnapshot, own, waits]
    simp [persistView, nothing] at dirty

/-! Three voters; this node is 1. -/

def follower : CreateConfig := ⟨1, [1, 2, 3], false, 10, 100, 200, 7, 1024, 4, none⟩

/-- The save of the first snapshot is reported while the snapshot waits. -/
def timelyCalls : List (Op × Nat) := [(.advance 0, 0), (.snapshot, 0), (.snapshotDataReady 77, 1)]

theorem timely_view_reported : ∃ s, Saves ReportsPending follower s ∧
    ∃ view, (raftAdvance s.run.node 0).2.persist = some view ∧ view.snapshotDirty = true ∧
      s.report = some (s.taken, view.snapshotSize) := by
  obtain ⟨s, reached, tested⟩ := Saves.exists_of_through ReportsPending follower
    (fun s => (raftAdvance s.run.node 0).2.persist.any (·.snapshotDirty) &&
      !(raftAdvance s.run.node 0).1.snapshotInstallPending) timelyCalls (by decide +kernel)
  obtain ⟨offers, own⟩ := Bool.and_eq_true_iff.mp tested
  obtain ⟨view, handed, dirty⟩ := (Option.any_eq_true _ _).mp offers
  have told := local_view_reported reached handed dirty (by simpa using own)
  exact ⟨s, reached, view, handed, dirty, told.2.2⟩

/-- The leader of term 5 makes the node give up its first snapshot, whose save is
reported afterwards; the node then takes its second snapshot. -/
def lateCalls : List (Op × Nat) :=
  [(.advance 0, 0), (.snapshot, 0), (.recvPeer ⟨2, 1, .appendEntries ⟨5, 0, 0, 0, 0, [], 2⟩⟩, 0),
    (.snapshotDataReady 77, 1), (.snapshot, 0)]

/-- The second snapshot is handed out at once, with size 0, though nothing was reported
since it was taken. -/
theorem late_report_completes_newer : ∃ s, Saves (fun _ _ _ => True) follower s ∧
    ∃ view, (raftAdvance s.run.node 0).2.persist = some view ∧ view.snapshotDirty = true ∧
      (raftAdvance s.run.node 0).1.snapshotInstallPending = false ∧
      s.taken = 2 ∧ s.report = none ∧ view.snapshotSize = 0 := by
  obtain ⟨s, reached, tested⟩ := Saves.exists_of_through (fun _ _ _ => True) follower
    (fun s => (raftAdvance s.run.node 0).2.persist.any
        (fun (view : Persist) => view.snapshotDirty && decide (view.snapshotSize = 0)) &&
      !(raftAdvance s.run.node 0).1.snapshotInstallPending && decide (s.taken = 2) &&
      decide (s.report = none)) lateCalls (by decide +kernel)
  simp only [Bool.and_eq_true, decide_eq_true_eq, Bool.not_eq_eq_eq_not, Bool.not_true] at tested
  obtain ⟨⟨⟨offers, own⟩, taken⟩, silent⟩ := tested
  obtain ⟨view, handed, shape⟩ := (Option.any_eq_true _ _).mp offers
  simp only [Bool.and_eq_true, decide_eq_true_eq] at shape
  exact ⟨s, reached, view, handed, shape.1, own, taken, silent, shape.2⟩

end Kynovo.Raft.LocalSave
