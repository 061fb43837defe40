import Kynovo.Raft.NodeEdits

/-! The durability frontier. Views are handed out and complete in order, while
the log is cut and grows again. As long as no cut reaches into a view in
flight, and no completed view stands for entries it left out, what the frontier
covers of the current log is in the views that completed. -/
namespace Kynovo.Raft.Frontier
open Kynovo.Lib
open Kynovo.Wal.Record
open Kynovo.Raft.NodeEdits

/-! ## Entries by index -/

theorem entryAt_bounds {log : Log} {idx : Int} {entry : Entry} (held : log.entryAt idx = some entry) :
    log.lastIncludedIndex < idx ∧ idx ≤ raftLogLastIndex log := by
  unfold Log.entryAt at held
  split at held
  · cases held
  · rename_i above
    obtain ⟨inside, -⟩ := List.getElem?_eq_some_iff.mp held
    simp only [Log.offset, raftLogLastIndex] at *
    omega

theorem entryAt_exists {log : Log} {idx : Int} (above : log.lastIncludedIndex < idx)
    (reached : idx ≤ raftLogLastIndex log) : ∃ entry, log.entryAt idx = some entry := by
  have inside : log.offset idx < log.entries.length := by
    simp only [Log.offset, raftLogLastIndex] at *
    omega
  exact ⟨log.entries[log.offset idx], by simp [Log.entryAt, not_le.mpr above, inside]⟩

theorem entryAt_append {log : Log} {idx : Int} {entry : Entry} (new : List Entry)
    (held : log.entryAt idx = some entry) :
    Log.entryAt { log with entries := log.entries ++ new } idx = some entry := by
  obtain ⟨above, -⟩ := entryAt_bounds held
  simp only [Log.entryAt, not_le.mpr above, if_false, Log.offset] at held ⊢
  obtain ⟨inside, -⟩ := List.getElem?_eq_some_iff.mp held
  rw [List.getElem?_append_left inside, held]

theorem entryAt_append_one {log : Log} {idx : Int} {entry added : Entry}
    (held : Log.entryAt { log with entries := log.entries ++ [added] } idx = some entry) :
    log.entryAt idx = some entry ∨ (idx = raftLogLastIndex log + 1 ∧ entry = added) := by
  obtain ⟨above, -⟩ := entryAt_bounds held
  simp only at above
  simp only [Log.entryAt, not_le.mpr above, if_false, Log.offset, raftLogLastIndex] at held ⊢
  by_cases inside : (idx - log.lastIncludedIndex - 1).toNat < log.entries.length
  · rw [List.getElem?_append_left inside] at held
    exact .inl held
  · rw [List.getElem?_append_right (by omega)] at held
    obtain ⟨place, same⟩ := List.getElem?_eq_some_iff.mp held
    simp only [List.length_singleton, List.getElem_singleton] at place same
    exact .inr ⟨by omega, same.symm⟩

theorem entryAt_truncate {log cut : Log} {idx bound : Int} {entry : Entry}
    (truncated : raftLogTruncate log bound = some cut) (held : log.entryAt idx = some entry)
    (below : idx ≤ bound) : cut.entryAt idx = some entry := by
  obtain ⟨above, -⟩ := entryAt_bounds held
  unfold raftLogTruncate at truncated
  split at truncated
  · cases truncated
  · cases truncated
    simp only [Log.entryAt, not_le.mpr above, if_false, Log.offset] at held ⊢
    rw [List.getElem?_take_of_lt (by omega), held]

theorem truncate_base {log cut : Log} {bound : Int}
    (truncated : raftLogTruncate log bound = some cut) :
    cut.lastIncludedIndex = log.lastIncludedIndex := by
  unfold raftLogTruncate at truncated
  split at truncated
  · cases truncated
  · cases truncated
    rfl

theorem compact_base {log compacted : Log} {bound term : Int}
    (compact : raftLogCompactPrefix log bound term = some compacted) :
    log.lastIncludedIndex ≤ bound ∧ compacted.lastIncludedIndex = bound := by
  unfold raftLogCompactPrefix at compact
  split at compact
  · cases compact
  · rename_i inside
    cases compact
    simp only [Bool.or_eq_true, decide_eq_true_eq, not_or, not_lt] at inside
    exact ⟨inside.1, rfl⟩

theorem entryAt_compact {log compacted : Log} {idx bound term : Int}
    (compact : raftLogCompactPrefix log bound term = some compacted) (above : bound < idx) :
    compacted.entryAt idx = log.entryAt idx := by
  unfold raftLogCompactPrefix at compact
  split at compact
  · cases compact
  · rename_i inside
    cases compact
    simp only [Bool.or_eq_true, decide_eq_true_eq, not_or, not_lt] at inside
    have aboveBase : ¬ idx ≤ log.lastIncludedIndex := by omega
    simp only [Log.entryAt, not_le.mpr above, aboveBase, if_false, Log.offset, List.getElem?_drop]
    congr 1
    omega

/-! ## The entries of a view -/

theorem persistEntries_eq (log : Log) (startIdx : Int) :
    persistEntries log startIdx = (log.entries.zipIdx.drop (log.offset startIdx)).map
      (fun item => persistEntry (log.lastIncludedIndex + 1 + item.2) item.1) := rfl

theorem mem_persistEntries {log : Log} {startIdx : Int} {item : PersistEntry}
    (start : log.lastIncludedIndex < startIdx) :
    item ∈ persistEntries log startIdx ↔
      startIdx ≤ item.index ∧ ∃ entry, log.entryAt item.index = some entry ∧
        item = persistEntry item.index entry := by
  rw [persistEntries_eq, List.mem_map]
  constructor
  · rintro ⟨⟨entry, pos⟩, member, rfl⟩
    obtain ⟨place, found⟩ := List.mem_iff_getElem?.mp member
    rw [List.getElem?_drop, List.getElem?_zipIdx] at found
    obtain ⟨stored, atPlace, shape⟩ := Option.map_eq_some_iff.mp found
    cases shape
    refine ⟨?_, entry, ?_, rfl⟩
    · simp only [persistEntry, Log.offset]
      omega
    · have above : ¬ (persistEntry (log.lastIncludedIndex + 1 + ↑(0 + (log.offset startIdx + place)))
          entry).index ≤ log.lastIncludedIndex := by
        simp only [persistEntry]
        omega
      simp only [Log.entryAt, above, if_false]
      rw [← atPlace]
      congr 1
      simp only [persistEntry, Log.offset]
      omega
  · rintro ⟨reached, entry, held, shape⟩
    obtain ⟨above, tip⟩ := entryAt_bounds held
    refine ⟨(entry, log.offset item.index), ?_, ?_⟩
    · rw [List.mem_iff_getElem?]
      refine ⟨log.offset item.index - log.offset startIdx, ?_⟩
      have place : log.offset startIdx + (log.offset item.index - log.offset startIdx) =
          log.offset item.index := by
        simp only [Log.offset]
        omega
      simp only [Log.entryAt, not_le.mpr above, if_false] at held
      rw [List.getElem?_drop, place, List.getElem?_zipIdx, held]
      simp
    · rw [shape]
      simp only [persistEntry, Log.offset]
      congr 1
      omega

theorem persistEntries_max (log : Log) (startIdx : Int) :
    persistEntries log startIdx = persistEntries log (max startIdx (log.lastIncludedIndex + 1)) := by
  have same : log.offset startIdx = log.offset (max startIdx (log.lastIncludedIndex + 1)) := by
    simp only [Log.offset]
    omega
  rw [persistEntries_eq, persistEntries_eq, same]

theorem persistEntries_ascending (log : Log) (startIdx : Int) :
    IndexedLog.Ascending PersistEntry.index (persistEntries log startIdx) := by
  rw [persistEntries_eq]
  refine List.pairwise_map.mpr (List.Pairwise.drop ?_)
  rw [List.pairwise_iff_getElem]
  intro i j inI inJ order
  simp only [List.getElem_zipIdx, persistEntry]
  omega

/-! ## What the views say at an index -/

/-- The views together hold this entry at the index, in its last version. -/
def agrees (views : List Persist) (idx : Int) (entry : Entry) : Prop :=
  (handedAt views idx).map content = some (idx, entry.term, entry.kind, entry.data)

/-- One of the views contains the entry. -/
def storedIn (views : List Persist) (idx : Int) (entry : Entry) : Prop :=
  ∃ view ∈ views, ∃ item ∈ view.logEntries, content item = (idx, entry.term, entry.kind, entry.data)

theorem handedLog_append (views : List Persist) (view : Persist) :
    handedLog (views ++ [view]) =
      IndexedLog.restate PersistEntry.index (handedLog views) view.logEntries := by
  simp [handedLog, List.foldl_append]

theorem handedLog_mem {views : List Persist} {item : PersistEntry} (member : item ∈ handedLog views) :
    ∃ view ∈ views, item ∈ view.logEntries := by
  induction views using List.reverseRecOn with
  | nil => cases member
  | append_singleton front view ih =>
    rw [handedLog_append] at member
    rcases IndexedLog.mem_restate member with old | new
    · obtain ⟨earlier, inFront, inView⟩ := ih old
      exact ⟨earlier, List.mem_append_left _ inFront, inView⟩
    · exact ⟨view, by simp, new⟩

theorem storedIn_of_agrees {views : List Persist} {idx : Int} {entry : Entry}
    (same : agrees views idx entry) : storedIn views idx entry := by
  obtain ⟨item, found, shape⟩ := Option.map_eq_some_iff.mp same
  obtain ⟨view, member, inView⟩ := handedLog_mem (List.mem_of_find?_eq_some found)
  exact ⟨view, member, item, inView, shape⟩

theorem storedIn_append {views : List Persist} {idx : Int} {entry : Entry} (more : List Persist)
    (stored : storedIn views idx entry) : storedIn (views ++ more) idx entry := by
  obtain ⟨view, member, rest⟩ := stored
  exact ⟨view, List.mem_append_left _ member, rest⟩

/-- A view of the log from an index on: what it contains agrees, and what lies
below it still does. -/
theorem agrees_handed {log : Log} {views : List Persist} {view : Persist} {startIdx idx : Int}
    {entry : Entry} (start : log.lastIncludedIndex < startIdx)
    (entries : view.logEntries = persistEntries log startIdx) (held : log.entryAt idx = some entry)
    (before : agrees views idx entry ∨ startIdx ≤ idx) : agrees (views ++ [view]) idx entry := by
  have inView : startIdx ≤ idx → persistEntry idx entry ∈ persistEntries log startIdx :=
    fun reached => (mem_persistEntries start).mpr ⟨reached, entry, held, rfl⟩
  have ascending := persistEntries_ascending log startIdx
  unfold agrees handedAt
  rw [handedLog_append, entries]
  cases shape : persistEntries log startIdx with
  | nil =>
    rcases before with same | reached
    · exact same
    · have member := inView reached
      rw [shape] at member
      cases member
  | cons first rest =>
    rw [shape] at ascending inView
    by_cases reached : first.index ≤ idx
    · have low : startIdx ≤ first.index :=
        ((mem_persistEntries start).mp (shape ▸ List.mem_cons_self)).1
      rw [IndexedLog.find_restate_of_le reached]
      have found := IndexedLog.find_of_mem ascending (inView (low.trans reached))
      simp only [persistEntry] at found ⊢
      rw [found]
      rfl
    · rw [IndexedLog.find_restate_of_lt ascending (by omega)]
      rcases before with same | inside
      · exact same
      · have member := inView inside
        rcases List.mem_cons.mp member with rfl | inRest
        · exact absurd (le_refl idx) reached
        · have later := (List.pairwise_cons.mp ascending).1 _ inRest
          simp only [persistEntry] at later
          omega

/-! ## Backed indexes -/

/-- Every wanted index above the base has an entry of which something holds. -/
def Backed (log : Log) (want : Int → Prop) (holds : Int → Entry → Prop) : Prop :=
  ∀ idx, log.lastIncludedIndex < idx → want idx →
    ∃ entry, log.entryAt idx = some entry ∧ holds idx entry

theorem Backed.mono {log : Log} {want less : Int → Prop} {holds weaker : Int → Entry → Prop}
    (fewer : ∀ idx, less idx → want idx) (implies : ∀ idx entry, holds idx entry → weaker idx entry)
    (backed : Backed log want holds) : Backed log less weaker := by
  intro idx above wanted
  obtain ⟨entry, held, holding⟩ := backed idx above (fewer idx wanted)
  exact ⟨entry, held, implies idx entry holding⟩

variable {cuts : Int → Prop} {perm : Perm} {r r' : Node} {want : Int → Prop} {holds : Int → Entry → Prop}

/-- An edit never lowers the base, and above it every entry stays up to the
index at which the edit cuts, which the frontier does not pass either. -/
theorem LogEdit.kept (edit : LogEdit cuts r r') :
    r.log.lastIncludedIndex ≤ r'.log.lastIncludedIndex ∧
      ∃ limit : Option Int,
        (∀ c ∈ limit, cuts c ∧ r'.durableIndex ≤ c ∧ r'.persistSyncedIndex ≤ c) ∧
        ∀ idx entry, r'.log.lastIncludedIndex < idx → (∀ c ∈ limit, idx ≤ c) →
          r.log.entryAt idx = some entry → r'.log.entryAt idx = some entry := by
  cases edit with
  | same log _ => exact ⟨by rw [log], none, by simp, fun _ _ _ _ held => log ▸ held⟩
  | append new log _ =>
    refine ⟨by rw [log], none, by simp, fun idx entry _ _ held => ?_⟩
    rw [log]
    exact entryAt_append new held
  | trim log _ => exact ⟨by rw [log], none, by simp, fun _ _ _ _ held => log ▸ held⟩
  | cut idx allowed above log frontier =>
    obtain ⟨index, -, synced⟩ := frontier
    refine ⟨(truncate_base log).ge, some idx, ?_, fun _ _ _ below held => ?_⟩
    · rintro c ⟨⟩
      exact ⟨allowed, by omega, by omega⟩
    · exact entryAt_truncate log held (below idx rfl)
  | compact idx term log _ =>
    obtain ⟨low, base⟩ := compact_base log
    refine ⟨by omega, none, by simp, fun i entry above _ held => ?_⟩
    rw [entryAt_compact log (by omega), held]
  | reset idx term allowed above log frontier =>
    obtain ⟨index, -, synced⟩ := frontier
    refine ⟨by rw [log]; exact above, some idx, ?_, fun i entry base below held => ?_⟩
    · rintro c ⟨⟩
      exact ⟨allowed, by omega, by omega⟩
    · have reached := below idx rfl
      rw [log] at base
      simp only at base
      omega

/-- An edit lowers the frontier as a whole. -/
theorem LogEdit.lowers (edit : LogEdit cuts r r') :
    r'.durableIndex ≤ r.durableIndex ∧ r'.durableConfirm ≤ r.durableConfirm ∧
      r'.persistSyncedIndex ≤ r.persistSyncedIndex ∧
      (r.persistSyncedIndex ≤ r.durableIndex → r'.persistSyncedIndex ≤ r'.durableIndex) ∧
      (r.durableConfirm ≤ r.durableIndex → r'.durableConfirm ≤ r'.durableIndex) := by
  cases edit with
  | same _ frontier | append _ _ frontier | compact _ _ _ frontier =>
    obtain ⟨index, confirm, synced⟩ := frontier
    omega
  | trim _ frontier | cut _ _ _ _ frontier | reset _ _ _ _ _ frontier =>
    obtain ⟨index, confirm, synced⟩ := frontier
    omega

/-- An edit that cuts above everything wanted keeps it backed. -/
theorem LogEdit.backed (edit : LogEdit cuts r r') (safe : ∀ c, cuts c → ∀ idx, want idx → idx ≤ c)
    (backed : Backed r.log want holds) : Backed r'.log want holds := by
  obtain ⟨base, limit, cutsAt, kept⟩ := LogEdit.kept edit
  intro idx above wanted
  obtain ⟨entry, held, holding⟩ := backed idx (by omega) wanted
  exact ⟨entry, kept idx entry above (fun c member => safe c (cutsAt c member).1 idx wanted) held,
    holding⟩

/-- What a node's frontier covers is backed. -/
structure FrontierBacked (r : Node) (durable synced : Int → Entry → Prop) : Prop where
  durable : Backed r.log (· ≤ r.durableIndex) durable
  synced : Backed r.log (· ≤ r.persistSyncedIndex) synced
  syncedLe : r.persistSyncedIndex ≤ r.durableIndex
  confirmLe : r.durableConfirm ≤ r.durableIndex

/-- An edit lowers the frontier wherever it cuts. -/
theorem LogEdit.frontier {durable synced : Int → Entry → Prop} (edit : LogEdit cuts r r')
    (backed : FrontierBacked r durable synced) : FrontierBacked r' durable synced := by
  obtain ⟨base, limit, cutsAt, kept⟩ := LogEdit.kept edit
  obtain ⟨lowIndex, -, lowSynced, syncedOrder, confirmOrder⟩ := LogEdit.lowers edit
  refine ⟨?_, ?_, syncedOrder backed.syncedLe, confirmOrder backed.confirmLe⟩
  · intro idx above wanted
    obtain ⟨entry, held, holding⟩ := backed.durable idx (by omega) (by omega)
    exact ⟨entry, kept idx entry above
      (fun c member => wanted.trans (cutsAt c member).2.1) held, holding⟩
  · intro idx above wanted
    obtain ⟨entry, held, holding⟩ := backed.synced idx (by omega) (by omega)
    exact ⟨entry, kept idx entry above
      (fun c member => wanted.trans (cutsAt c member).2.2) held, holding⟩

/-! ## The invariant of runs -/

/-- What a view in flight stands for once it completes: everything up to its
last index, without what it left out below its snapshot unless it left out
nothing that matters. -/
def claims (handed : Handed) (idx : Int) : Prop :=
  idx ≤ viewDurable handed.view ∧ (handed.settled = true ∨ handed.view.lastIncludedIndex < idx)

structure Truthful (run : Run) : Prop where
  frontier : FrontierBacked run.node (storedIn run.completed) (agrees run.emitted)
  flying : ∀ handed ∈ run.inflight, Backed run.node.log (claims handed) (agrees run.emitted)
  queued : ∀ front handed back, run.inflight = front ++ handed :: back →
    Backed run.node.log (claims handed)
      (storedIn (run.completed ++ (front ++ [handed]).map Handed.view))
  views : run.emitted = run.completed ++ run.inflight.map Handed.view

/-- No cut of the call reaches into a view in flight. -/
def keepsInflight (run : Run) (op : Op) : Prop :=
  ∀ idx, cutPoint run.node op = some idx → ∀ handed ∈ run.inflight, viewDurable handed.view ≤ idx

/-- The completion of the view compacts the log up to a local snapshot that
covers the view's boundary. -/
def compactsPast (r : Node) (view : Persist) : Bool :=
  r.completing && view.snapshotDirty && r.snapshotPendingDirty && r.snapshotDataReadyFlag &&
    decide (view.lastIncludedIndex ≤ r.snapshotPending.lastIndex) &&
    decide (r.snapshotPending.lastIndex ≤ viewDurable view) &&
    decide (r.snapshotPending.lastIndex ≤ raftLogLastIndex r.log)

/-- The next view to complete left out nothing, or the log starts above what it
left out. -/
def standsForItsLog (run : Run) : Prop :=
  ∀ handed ∈ run.inflight.head?, handed.settled = true ∨
    handed.view.lastIncludedIndex ≤ run.node.log.lastIncludedIndex ∨
    compactsPast run.node handed.view = true

/-- The condition on a step. -/
structure Orderly (run : Run) (op : Op) : Prop where
  keeps : keepsInflight run op
  stands : op = .complete → standsForItsLog run

theorem Truthful.of_edit {run : Run} {node : Node} {cuts : Int → Prop} (truthful : Truthful run)
    (edit : LogEdit cuts run.node node)
    (keeps : ∀ idx, cuts idx → ∀ handed ∈ run.inflight, viewDurable handed.view ≤ idx) :
    Truthful { run with node } where
  frontier := LogEdit.frontier edit truthful.frontier
  flying := fun handed member => LogEdit.backed edit
    (fun c cut _ claimed => claimed.1.trans (keeps c cut handed member))
    (truthful.flying handed member)
  queued := fun front handed back shape => by
    have member : handed ∈ run.inflight := by
      change run.inflight = _ at shape
      simp [shape]
    exact LogEdit.backed edit (fun c cut _ claimed => claimed.1.trans (keeps c cut handed member))
      (truthful.queued front handed back shape)
  views := truthful.views

/-- A call that hands out nothing and completes nothing. -/
theorem Truthful.of_edits {run : Run} {node : Node} {cuts : Int → Prop} (truthful : Truthful run)
    (edits : Edits cuts perm run.node node)
    (keeps : ∀ idx, cuts idx → ∀ handed ∈ run.inflight, viewDurable handed.view ≤ idx) :
    Truthful { run with node } := by
  induction edits with
  | refl => exact truthful
  | tail _ edit ih =>
    -- a move of the hard state keeps the log
    cases edit with
    | log edit _ => exact ih.of_edit edit keeps
    | hard _ log frontier _ =>
      have same : LogEdit cuts _ _ := .same log frontier
      exact ih.of_edit same keeps

/-! ## Handing out a view -/

theorem raftAdvance_persist {elapsedMs : Nat} {view : Persist}
    (handed : (raftAdvance r elapsedMs).2.persist = some view) :
    view = persistView (raftAdvance r elapsedMs).1 := by
  have output : ∀ (node : Node) (stopped : Bool), (advanceOutput node stopped).2.persist = some view →
      view = persistView (advanceOutput node stopped).1 := by
    intro node stopped offered
    simp only [advanceOutput] at offered ⊢
    split at offered
    · exact (Option.some.inj offered).symm
    · cases offered
  revert handed
  unfold raftAdvance
  dsimp only
  split
  · unfold advanceDrain
    dsimp only
    split
    · exact output _ _
    · exact output _ _
  · rintro ⟨⟩
  · exact output _ _

theorem persistView_entries (r : Node) :
    (persistView r).logEntries = persistEntries r.log (viewStart r (persistView r).lastIncludedIndex) := by
  unfold persistView
  cases dirtySnapshot r with
  | none => rfl
  | some snapshot => rfl

theorem viewStart_above (r : Node) (baseIndex : Int) : r.log.lastIncludedIndex < viewStart r baseIndex := by
  unfold viewStart
  omega

/-- After a view is handed out, the views agree with the log wherever they did,
and above the view's boundary and the watermark. -/
theorem agrees_persistView {views : List Persist} {idx : Int} {entry : Entry}
    (held : r.log.entryAt idx = some entry)
    (before : agrees views idx entry ∨
      ((persistView r).lastIncludedIndex < idx ∧ r.persistSyncedIndex < idx)) :
    agrees (views ++ [persistView r]) idx entry := by
  refine agrees_handed (viewStart_above r _) (persistView_entries r) held ?_
  rcases before with same | ⟨boundary, synced⟩
  · exact .inl same
  · obtain ⟨base, -⟩ := entryAt_bounds held
    refine .inr ?_
    unfold viewStart
    omega

theorem Backed.handed {views : List Persist} (backed : Backed r.log want (agrees views)) :
    Backed r.log want (agrees (views ++ [persistView r])) := by
  intro idx above wanted
  obtain ⟨entry, held, same⟩ := backed idx above wanted
  exact ⟨entry, held, agrees_persistView held (.inl same)⟩

/-- Above its boundary a view reaches no further than the log. -/
theorem viewDurable_le {idx : Int} (boundary : (persistView r).lastIncludedIndex < idx)
    (reached : idx ≤ viewDurable (persistView r)) : idx ≤ raftLogLastIndex r.log := by
  unfold viewDurable at reached
  cases last : (persistView r).logEntries.getLast? with
  | none =>
    rw [last] at reached
    simp only [Option.map_none, Option.getD_none] at reached
    omega
  | some item =>
    rw [last] at reached
    simp only [Option.map_some, Option.getD_some] at reached
    have member := List.mem_of_getLast? last
    rw [persistView_entries] at member
    obtain ⟨-, entry, held, -⟩ := (mem_persistEntries (viewStart_above r _)).mp member
    exact reached.trans (entryAt_bounds held).2

/-- Entries that a view skipped without harm are in the earlier views. -/
theorem agrees_of_skipsNothing {views : List Persist} {view : Persist} {idx : Int} {entry : Entry}
    (harmless : skipsNothing r views view = true) (held : r.log.entryAt idx = some entry)
    (above : r.persistSyncedIndex < idx) (below : idx ≤ view.lastIncludedIndex) :
    agrees views idx entry := by
  simp only [skipsNothing, Bool.and_eq_true, List.all_eq_true, List.mem_filter,
    decide_eq_true_eq, beq_iff_eq, and_imp] at harmless
  obtain ⟨base, -⟩ := entryAt_bounds held
  refine harmless.2 (persistEntry idx entry) ?_ below
  rw [persistEntries_max]
  exact (mem_persistEntries (by omega)).mpr ⟨by simp only [persistEntry]; omega, entry, held, rfl⟩

/-- The view that is handed out next. -/
theorem claims_handed {views : List Persist}
    (synced : Backed r.log (· ≤ r.persistSyncedIndex) (agrees views)) :
    Backed r.log (claims ⟨persistView r, skipsNothing r views (persistView r)⟩)
      (agrees (views ++ [persistView r])) := by
  rintro idx base ⟨reached, whole⟩
  by_cases boundary : (persistView r).lastIncludedIndex < idx
  · obtain ⟨entry, held⟩ := entryAt_exists base (viewDurable_le boundary reached)
    refine ⟨entry, held, agrees_persistView held ?_⟩
    by_cases covered : idx ≤ r.persistSyncedIndex
    · obtain ⟨same, atIdx, agreeing⟩ := synced idx base covered
      cases held.symm.trans atIdx
      exact .inl agreeing
    · exact .inr ⟨boundary, by omega⟩
  · have harmless := whole.resolve_right boundary
    have tip : (persistView r).lastIncludedIndex ≤ raftLogLastIndex r.log := by
      simp only [skipsNothing, Bool.and_eq_true, decide_eq_true_eq] at harmless
      exact harmless.1
    obtain ⟨entry, held⟩ := entryAt_exists base ((not_lt.mp boundary).trans tip)
    refine ⟨entry, held, agrees_persistView held (.inl ?_)⟩
    by_cases covered : idx ≤ r.persistSyncedIndex
    · obtain ⟨same, atIdx, agreeing⟩ := synced idx base covered
      cases held.symm.trans atIdx
      exact agreeing
    · exact agrees_of_skipsNothing harmless held (by omega) (not_lt.mp boundary)

/-- A run in which the node's next view is handed out. -/
theorem Truthful.handed {run : Run} (truthful : Truthful run) :
    Truthful { run with
      inflight := run.inflight ++
        [⟨persistView run.node, skipsNothing run.node run.emitted (persistView run.node)⟩]
      emitted := run.emitted ++ [persistView run.node] } := by
  have next := claims_handed truthful.frontier.synced
  have views := truthful.views
  refine ⟨⟨truthful.frontier.durable, truthful.frontier.synced.handed, truthful.frontier.syncedLe,
    truthful.frontier.confirmLe⟩, ?_, ?_, ?_⟩
  · intro handed member
    rcases List.mem_append.mp member with old | new
    · exact (truthful.flying handed old).handed
    · rw [List.mem_singleton.mp new]
      exact next
  · intro front handed back shape
    -- the view is the new one, or the split is one of the old queue
    rcases List.eq_nil_or_concat back with rfl | ⟨older, newest, rfl⟩
    · obtain ⟨rfl, last⟩ := List.append_inj' shape rfl
      cases last
      refine next.mono (fun _ wanted => wanted) (fun idx entry same => ?_)
      have stored := storedIn_of_agrees same
      rw [views] at stored
      simpa using stored
    · have split : run.inflight ++
          [⟨persistView run.node, skipsNothing run.node run.emitted (persistView run.node)⟩] =
          (front ++ handed :: older) ++ [newest] := by simpa using shape
      exact truthful.queued front handed older (List.append_inj' split rfl).1
  · simp [views]

theorem drive_truthful {run : Run} (elapsedMs : Nat) (truthful : Truthful run)
    (keeps : keepsInflight run (.advance elapsedMs)) : Truthful (drive run elapsedMs) := by
  have edits := advance_edits run.node elapsedMs trivial (.all run.node _)
  have advanced : Truthful { run with node := (raftAdvance run.node elapsedMs).1 } :=
    truthful.of_edits edits keeps
  have consumed : ∀ {run : Run}, Truthful run →
      Truthful { run with node := raftReadyConsumed run.node } := by
    intro run before
    have same : LogEdit (fun _ => False) run.node (raftReadyConsumed run.node) :=
      .same rfl ⟨rfl, rfl, rfl⟩
    exact before.of_edit same (by simp)
  cases handed : (raftAdvance run.node elapsedMs).2.persist with
  | none =>
    have shape : drive run elapsedMs = { run with
        node := raftReadyConsumed (raftAdvance run.node elapsedMs).1
        released := run.released ++ (raftAdvance run.node elapsedMs).2.msgs } := by
      simp [drive, handed]
    obtain ⟨frontier, flying, queued, views⟩ := consumed advanced
    rw [shape]
    exact ⟨frontier, flying, queued, views⟩
  | some view =>
    cases raftAdvance_persist handed
    obtain ⟨frontier, flying, queued, views⟩ := consumed advanced.handed
    have shape : drive run elapsedMs = { run with
        node := raftReadyConsumed (raftAdvance run.node elapsedMs).1
        inflight := run.inflight ++ [⟨persistView (raftAdvance run.node elapsedMs).1,
          skipsNothing (raftAdvance run.node elapsedMs).1 run.emitted
            (persistView (raftAdvance run.node elapsedMs).1)⟩]
        emitted := run.emitted ++ [persistView (raftAdvance run.node elapsedMs).1]
        released := run.released ++ (raftAdvance run.node elapsedMs).2.msgs } := by
      simp [drive, handed]
    rw [shape]
    exact ⟨frontier, flying, queued, views⟩

/-! ## Completing a view -/

/-- The frontier rises to what a report says, or stays. -/
structure Raised (r r' : Node) (reported : Int) : Prop where
  durable : r'.durableIndex ≤ max r.durableIndex reported
  synced : r'.persistSyncedIndex ≤ max r.persistSyncedIndex reported
  syncedLe : r.persistSyncedIndex ≤ r.durableIndex → r'.persistSyncedIndex ≤ r'.durableIndex
  confirmLe : r.durableConfirm ≤ r.durableIndex → r'.durableConfirm ≤ r'.durableIndex

/-- The first view in flight completes and stands for the log. -/
theorem Truthful.settled {run : Run} {handed : Handed} {rest : List Handed} {node : Node}
    (truthful : Truthful run) (shape : run.inflight = handed :: rest)
    (stands : handed.settled = true ∨
      handed.view.lastIncludedIndex ≤ run.node.log.lastIncludedIndex)
    (log : node.log = run.node.log) (raised : Raised run.node node (viewDurable handed.view)) :
    Truthful { run with
      node
      inflight := rest
      completed := run.completed ++ [handed.view] } := by
  have first : handed ∈ run.inflight := by simp [shape]
  have claimed : ∀ idx, run.node.log.lastIncludedIndex < idx → idx ≤ viewDurable handed.view →
      claims handed idx := by
    intro idx base reached
    refine ⟨reached, stands.imp_right fun below => ?_⟩
    omega
  refine ⟨⟨?_, ?_, raised.syncedLe truthful.frontier.syncedLe,
    raised.confirmLe truthful.frontier.confirmLe⟩, ?_, ?_, ?_⟩
  · simp only [log]
    intro idx base wanted
    rcases le_max_iff.mp (wanted.trans raised.durable) with old | new
    · obtain ⟨entry, held, stored⟩ := truthful.frontier.durable idx base old
      exact ⟨entry, held, storedIn_append _ stored⟩
    · simpa using truthful.queued [] handed rest shape idx base (claimed idx base new)
  · simp only [log]
    intro idx base wanted
    rcases le_max_iff.mp (wanted.trans raised.synced) with old | new
    · exact truthful.frontier.synced idx base old
    · exact truthful.flying handed first idx base (claimed idx base new)
  · intro other member
    simp only [log]
    exact truthful.flying other (by simp only [shape]; exact List.mem_cons_of_mem _ member)
  · intro front other back split
    simp only [log]
    have whole : run.inflight = (handed :: front) ++ other :: back := by
      rw [shape]
      exact congrArg (handed :: ·) split
    simpa using truthful.queued (handed :: front) other back whole
  · rw [truthful.views, shape]
    simp

/-- A report moves the frontier and nothing of the log. -/
theorem raftPersistComplete_spec (r : Node) (reported : Int) :
    (raftPersistComplete r reported).1.log = r.log ∧
      Raised r (raftPersistComplete r reported).1 reported := by
  unfold raftPersistComplete
  split
  · exact ⟨rfl, le_max_left _ _, le_max_left _ _, id, id⟩
  · have calm := Frame.commitIfLeader_calm (persistReported r reported)
    refine ⟨calm.log, ?_, ?_, ?_, ?_⟩
    · rw [calm.durableIndex]
      exact le_refl _
    · rw [calm.persistSyncedIndex]
      simp only [persistReported]
      omega
    · rw [calm.persistSyncedIndex, calm.durableIndex]
      simp only [persistReported]
      omega
    · rw [calm.durableConfirm, calm.durableIndex]
      simp only [persistReported]
      omega

/-- The completion of a snapshot may compact the log, and moves no frontier. -/
theorem raftSnapshotPersistComplete_spec (r : Node) (reported : Int) :
    SameFrontier r (raftSnapshotPersistComplete r reported).1 ∧
      ((raftSnapshotPersistComplete r reported).1.log = r.log ∨
        ∃ idx term, raftLogCompactPrefix r.log idx term =
          some (raftSnapshotPersistComplete r reported).1.log) := by
  unfold raftSnapshotPersistComplete
  split
  · exact ⟨⟨rfl, rfl, rfl⟩, .inl rfl⟩
  · split
    · split
      · exact ⟨⟨rfl, rfl, rfl⟩, .inl rfl⟩
      · rename_i log compacted
        exact ⟨⟨rfl, rfl, rfl⟩, .inr ⟨_, _, compacted⟩⟩
    · exact ⟨⟨rfl, rfl, rfl⟩, .inl rfl⟩

theorem completeView_spec (r : Node) (view : Persist) :
    Raised r (completeView r view) (viewDurable view) ∧
      LogEdit (fun _ => False) r { r with log := (completeView r view).log } := by
  obtain ⟨log, raised⟩ := raftPersistComplete_spec r (viewDurable view)
  unfold completeView
  dsimp only
  split
  · obtain ⟨⟨index, confirm, synced⟩, compacts⟩ :=
      raftSnapshotPersistComplete_spec (raftPersistComplete r (viewDurable view)).1 (viewDurable view)
    obtain ⟨durableLe, syncedLe, syncedOrder, confirmOrder⟩ := raised
    refine ⟨⟨by rw [index]; exact durableLe, by rw [synced]; exact syncedLe,
      by rw [index, synced]; exact syncedOrder, by rw [index, confirm]; exact confirmOrder⟩, ?_⟩
    rcases compacts with same | ⟨idx, term, compacted⟩
    · exact .same (same.trans log) ⟨rfl, rfl, rfl⟩
    · rw [log] at compacted
      exact .compact idx term compacted ⟨rfl, rfl, rfl⟩
  · exact ⟨raised, .same log ⟨rfl, rfl, rfl⟩⟩

theorem advanceCommitFrom_shape (steps : Nat) (r : Node) (idx : Int) :
    ∃ commit confirmed, advanceCommitFrom r steps idx = { r with
      commitIndex := commit
      leadershipConfirmed := confirmed } := by
  induction steps generalizing r idx with
  | zero => exact ⟨_, _, rfl⟩
  | succ steps ih =>
    unfold advanceCommitFrom
    split
    · exact ih r _
    · split
      · obtain ⟨commit, confirmed, shape⟩ := ih { r with
          commitIndex := idx
          leadershipConfirmed := true } (idx + 1)
        exact ⟨commit, confirmed, shape⟩
      · exact ⟨_, _, rfl⟩

theorem commitIfLeader_shape (r : Node) :
    ∃ commit confirmed, commitIfLeader r = { r with
      commitIndex := commit
      leadershipConfirmed := confirmed } := by
  unfold commitIfLeader
  split
  · exact advanceCommitFrom_shape ..
  · exact ⟨_, _, rfl⟩

theorem raftPersistComplete_keeps (r : Node) (reported : Int) :
    (raftPersistComplete r reported).1.phase = r.phase ∧
      (raftPersistComplete r reported).1.snapshotPending = r.snapshotPending ∧
      (raftPersistComplete r reported).1.snapshotPendingDirty = r.snapshotPendingDirty ∧
      (raftPersistComplete r reported).1.snapshotDataReadyFlag = r.snapshotDataReadyFlag := by
  unfold raftPersistComplete
  split
  · exact ⟨rfl, rfl, rfl, rfl⟩
  · obtain ⟨commit, confirmed, shape⟩ := commitIfLeader_shape (persistReported r reported)
    simp only [shape]
    exact ⟨rfl, rfl, rfl, rfl⟩

/-- A local snapshot that covers the boundary of the view becomes the base. -/
theorem compactsPast_base {view : Persist} (compacts : compactsPast r view = true) :
    view.lastIncludedIndex ≤ (completeView r view).log.lastIncludedIndex ∨
      view.lastIncludedIndex ≤ r.log.lastIncludedIndex := by
  simp only [compactsPast, Bool.and_eq_true, decide_eq_true_eq] at compacts
  obtain ⟨⟨⟨⟨⟨⟨completing, dirty⟩, pending⟩, ready⟩, covers⟩, durable⟩, inside⟩ := compacts
  by_cases low : r.snapshotPending.lastIndex < r.log.lastIncludedIndex
  · exact .inr (by omega)
  · refine .inl ?_
    obtain ⟨log, -⟩ := raftPersistComplete_spec r (viewDurable view)
    obtain ⟨phase, taken, pendingSame, readySame⟩ := raftPersistComplete_keeps r (viewDurable view)
    unfold completeView
    generalize (raftPersistComplete r (viewDurable view)).1 = reported at *
    have still : reported.completing = true := by
      simpa only [Node.completing, phase] using completing
    simp only [dirty, if_true, raftSnapshotPersistComplete, still, Bool.not_true, Bool.false_eq_true,
      if_false, pendingSame, pending, readySame, ready, taken, durable, decide_true, Bool.and_self,
      log, raftLogCompactPrefix, low, not_lt.mpr inside, decide_false, Bool.or_self]
    exact covers

theorem settleFirst_truthful {run : Run} (truthful : Truthful run) (stands : standsForItsLog run) :
    Truthful (settleFirst run) := by
  unfold settleFirst
  split
  · exact truthful
  · rename_i handed rest shape
    obtain ⟨raised, compacts⟩ := completeView_spec run.node handed.view
    have compacted : Truthful { run with
        node := { run.node with log := (completeView run.node handed.view).log } } :=
      truthful.of_edit compacts (by simp)
    have base : run.node.log.lastIncludedIndex ≤
        (completeView run.node handed.view).log.lastIncludedIndex := by
      have low := (LogEdit.kept compacts).1
      exact low
    refine compacted.settled shape ?_ rfl ?_
    · rcases stands handed (by simp [shape]) with whole | below | covered
      · exact .inl whole
      · exact .inr (below.trans base)
      · exact .inr ((compactsPast_base covered).elim id (fun below => below.trans base))
    · exact ⟨raised.durable, raised.synced, raised.syncedLe, raised.confirmLe⟩

/-! ## Runs -/

/-- A restored log holds the entries it was given, at their indexes. -/
theorem restoreEntries_spec {log restored : Log} {items : List PersistEntry}
    (given : restoreEntries log items = some restored) :
    restored.lastIncludedIndex = log.lastIncludedIndex ∧
      IndexedLog.Ascending PersistEntry.index items ∧
      (∀ item ∈ items, raftLogLastIndex log < item.index) ∧
      ∀ idx entry, restored.entryAt idx = some entry → log.entryAt idx = some entry ∨
        ∃ item ∈ items, content item = (idx, entry.term, entry.kind, entry.data) := by
  induction items generalizing log with
  | nil =>
    cases given
    exact ⟨rfl, List.Pairwise.nil, by simp, fun _ _ held => .inl held⟩
  | cons item rest ih =>
    unfold restoreEntries at given
    split at given
    · cases given
    · rename_i passes
      have next : item.index = raftLogLastIndex log + 1 := by
        by_contra other
        simp [other] at passes
      obtain ⟨base, ascending, above, held⟩ := ih given
      have tip : raftLogLastIndex (raftLogAppend log ⟨item.term, item.kind, item.data, item.cfgOld,
          item.cfgNew, item.cfgLearners⟩) = item.index := by
        simp only [raftLogLastIndex, raftLogAppend, List.length_append, List.length_singleton] at next ⊢
        omega
      rw [tip] at above
      refine ⟨base, List.pairwise_cons.mpr ⟨above, ascending⟩, ?_, ?_⟩
      · intro other member
        rcases List.mem_cons.mp member with rfl | inRest
        · omega
        · have := above other inRest
          omega
      · intro idx entry found
        rcases held idx entry found with old | ⟨other, inRest, same⟩
        · rcases entryAt_append_one old with before | ⟨last, rfl⟩
          · exact .inl before
          · refine .inr ⟨item, List.mem_cons_self, ?_⟩
            rw [last, ← next]
            unfold storedEntry content
            split
            · rfl
            · rfl
        · exact .inr ⟨other, List.mem_cons_of_mem _ inRest, same⟩

theorem restored_agrees {log restored : Log} {p : Persist} (empty : log.entries = [])
    (given : restoreEntries log p.logEntries = some restored) :
    Backed restored (fun idx => idx ≤ raftLogLastIndex restored) (agrees [p]) := by
  obtain ⟨-, ascending, -, held⟩ := restoreEntries_spec given
  intro idx base reached
  obtain ⟨entry, found⟩ := entryAt_exists base reached
  refine ⟨entry, found, ?_⟩
  rcases held idx entry found with old | ⟨item, member, same⟩
  · have bounds := entryAt_bounds old
    simp only [raftLogLastIndex, empty, List.length_nil] at bounds
    omega
  · have whole : handedLog [p] = p.logEntries := by
      simp only [handedLog, List.foldl_cons, List.foldl_nil]
      cases p.logEntries with
      | nil => rfl
      | cons first rest => simp [IndexedLog.restate, IndexedLog.cut]
    have atItem : item.index = idx := congrArg Prod.fst same
    have lookup := IndexedLog.find_of_mem ascending member
    rw [atItem] at lookup
    simp only [agrees, handedAt, whole, lookup, Option.map_some, same]

theorem restoreVoters_log {p : Persist} {restored : Node}
    (given : restoreVoters r p = some restored) : restored.log = r.log := by
  unfold restoreVoters at given
  split at given
  · cases given
    rfl
  · obtain ⟨old, -, rest⟩ := Option.bind_eq_some_iff.mp given
    obtain ⟨new, -, shape⟩ := Option.bind_eq_some_iff.mp rest
    cases shape
    rfl

theorem restoreLearners_log {p : Persist} {restored : Node}
    (given : restoreLearners r p = some restored) : restored.log = r.log := by
  unfold restoreLearners at given
  split at given
  · cases given
    rfl
  · obtain ⟨learners, -, shape⟩ := Option.bind_eq_some_iff.mp given
    cases shape
    rfl

/-- What a node trusts at its start: its whole log, which the views hold. -/
structure Restored (r : Node) (views : List Persist) : Prop where
  synced : r.persistSyncedIndex = r.durableIndex
  confirm : r.durableConfirm = r.durableIndex
  whole : raftLogLastIndex r.log ≤ r.durableIndex
  backed : Backed r.log (· ≤ r.durableIndex) (agrees views)

theorem Restored.of_calm {views : List Persist} (restored : Restored r views)
    (calm : Frame.Calm r r') : Restored r' views where
  synced := by rw [calm.persistSyncedIndex, calm.durableIndex, restored.synced]
  confirm := by rw [calm.durableConfirm, calm.durableIndex, restored.confirm]
  whole := by
    rw [calm.log, calm.durableIndex]
    exact restored.whole
  backed := by
    rw [calm.log, calm.durableIndex]
    exact restored.backed

theorem restoreNode_restored {p : Persist} {restored : Node} (given : restoreNode r p = some restored) :
    Restored restored [p] := by
  unfold restoreNode at given
  split at given
  · cases given
  · obtain ⟨voting, votersGiven, withVoters⟩ := Option.bind_eq_some_iff.mp given
    obtain ⟨configured, learnersGiven, rest⟩ := Option.bind_eq_some_iff.mp withVoters
    obtain ⟨log, entriesGiven, applied⟩ := Option.bind_eq_some_iff.mp rest
    have empty : configured.log.entries = [] := by
      rw [restoreLearners_log learnersGiven, restoreVoters_log votersGiven]
    have trusted : Restored { configured with
        log := log
        durableIndex := raftLogLastIndex log
        durableConfirm := raftLogLastIndex log
        persistSyncedIndex := raftLogLastIndex log } [p] :=
      ⟨rfl, rfl, le_refl _, restored_agrees empty entriesGiven⟩
    have calm := Frame.raftApplyConfigFromLog_calm { configured with
        log := log
        durableIndex := raftLogLastIndex log
        durableConfirm := raftLogLastIndex log
        persistSyncedIndex := raftLogLastIndex log }
    dsimp only at applied
    split at applied
    · rename_i inForce shape
      rw [shape] at calm
      cases applied
      exact trusted.of_calm (calm.trans (Frame.rebuildPeers_calm inForce))
    · cases applied

theorem raftCreate_restored {cfg : CreateConfig} {node : Node} (created : raftCreate cfg = some node) :
    Restored node cfg.restore.toList := by
  unfold raftCreate at created
  split at created
  · cases created
  · obtain ⟨voters, -, rest⟩ := Option.bind_eq_some_iff.mp created
    obtain ⟨started, given, shape⟩ := Option.bind_eq_some_iff.mp rest
    cases shape
    have restored : Restored started cfg.restore.toList := by
      unfold restoreFrom at given
      split at given
      · rename_i blank
        cases given
        refine ⟨rfl, rfl, le_refl _, fun idx base reached => ?_⟩
        simp only [freshNode] at base reached
        omega
      · rename_i p persisted
        rw [persisted]
        exact restoreNode_restored given
    exact ⟨restored.synced, restored.confirm, restored.whole, restored.backed⟩

theorem start_truthful {cfg : CreateConfig} {run : Run} (started : Run.start cfg = some run) :
    Truthful run := by
  obtain ⟨node, created, rfl⟩ := Option.map_eq_some_iff.mp started
  obtain ⟨synced, confirm, -, backed⟩ := raftCreate_restored created
  refine ⟨⟨?_, ?_, synced.le, confirm.le⟩, by simp, ?_, by simp⟩
  · exact backed.mono (fun _ wanted => wanted) (fun _ _ same => storedIn_of_agrees same)
  · exact backed.mono (fun _ wanted => synced ▸ wanted) (fun _ _ same => same)
  · intro front handed back shape
    simp at shape

theorem step_truthful (run : Run) (op : Op) (truthful : Truthful run) (orderly : Orderly run op) :
    Truthful (run.step op) := by
  cases op with
  | advance elapsedMs => exact drive_truthful elapsedMs truthful orderly.keeps
  | complete => exact settleFirst_truthful truthful (orderly.stands rfl)
  | recvPeer msg => exact truthful.of_edits (call_edits run.node (.recvPeer msg) (.all _ _)) orderly.keeps
  | recvClient msg => exact truthful.of_edits (call_edits run.node (.recvClient msg) (.all _ _)) orderly.keeps
  | applyComplete appliedIndex =>
    exact truthful.of_edits (call_edits run.node (.applyComplete appliedIndex) (.all _ _)) orderly.keeps
  | snapshot => exact truthful.of_edits (call_edits run.node .snapshot (.all _ _)) orderly.keeps
  | snapshotDataReady totalSize =>
    exact truthful.of_edits (call_edits run.node (.snapshotDataReady totalSize) (.all _ _)) orderly.keeps
  | snapshotDataProvided followerId byteOffset size =>
    exact truthful.of_edits (call_edits run.node (.snapshotDataProvided followerId byteOffset size) (.all _ _))
      orderly.keeps
  | stop => exact truthful.of_edits (call_edits run.node .stop (.all _ _)) orderly.keeps

theorem reaches_truthful {cfg : CreateConfig} {run : Run} (reached : Reaches Orderly cfg run) :
    Truthful run :=
  reached.invariant (fun _ => start_truthful) step_truthful

end Kynovo.Raft.Frontier
