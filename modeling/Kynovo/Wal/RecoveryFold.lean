import Kynovo.Wal.StoreProofs

/-! Recovery against the fold of the written records. The fold is what the log is
for: each record with entries restates the log from its first index on. Recovery
decodes the base record a second time behind the others, so its result is the fold
only when that record's entries are still the end of the log. -/
namespace Kynovo.Wal.RecoveryFold
open Kynovo.Lib
open Kynovo.Lib.FileBytes
open Kynovo.Wal.Record
open Kynovo.Wal.Append
open Kynovo.Wal.Recovery
open Kynovo.Wal.ScanProofs
open Kynovo.Wal.StoreProofs

/-! ## Writing -/

/-- A persist view with the snapshot cache it is written under. -/
abbrev View := SnapshotCache × Persist

def View.record (view : View) : WalRecord := recordOf view.1 view.2

/-- Serialize and append one view. -/
def writeView (segmentSize : Nat) (store : Store) (view : View) : Option Store := do
  let bundle ← kStateSerialize view.1 view.2
  kWalAppendBundle segmentSize store bundle.walPayload

/-- Serialize and append views one after the other. -/
def writeViews (segmentSize : Nat) : Store → List View → Option Store
  | store, [] => some store
  | store, view :: rest => do
    let store ← writeView segmentSize store view
    writeViews segmentSize store rest

/-- A store opened for the first time. -/
def freshStore (snapshot : Int → List UInt8) : Store where
  disk := kWalMetaInit (emptyDisk snapshot)
  worker := openWorker { WalMetaState.zero with slot := 1 }

theorem fresh_metadata (snapshot : Int → List UInt8) :
    SlotInUse (kWalMetaInit (emptyDisk snapshot)).metaFile 1 WalMetaState.zero :=
  ⟨Or.inr rfl, _, _, WalMetaState.zero, rfl, slot_decode_zero, slot_decode_zero,
    Or.inr ⟨rfl, rfl⟩⟩

/-- Opening an empty base path gives the fresh store. -/
theorem kServerOpen_empty (snapshot : Int → List UInt8) :
    kServerOpen (emptyDisk snapshot) =
      .ok (freshStore snapshot, ⟨Restore.empty, WalMetaState.zero, false⟩) := by
  have load : kWalStateLoad (emptyDisk snapshot) =
      .ok ⟨Restore.empty, WalMetaState.zero, false⟩ := rfl
  simp only [kServerOpen, load, (fresh_metadata snapshot).load]
  rfl

theorem freshStore_holds (segmentSize : Nat) (snapshot : Int → List UInt8) :
    Holds segmentSize (freshStore snapshot) [] where
  layout := trivial
  writable := fun record member => by simp [recordsOf] at member
  behind := TornTail.of_short (show ([] : List UInt8).length < walHeaderSize by decide) _
  beyond := fun _ _ => rfl
  fits := Nat.zero_le _
  slot := ⟨_, fresh_metadata snapshot, fun _ => rfl, fun some => absurd rfl some, le_refl _⟩
  generation := rfl
  position := fun _ _ => rfl
  synced := Or.inl rfl

/-- Nothing lies behind the last record. -/
def Clean (segmentSize : Nat) (store : Store) : Prop :=
  ∀ size, 0 < size → leftover segmentSize store size = [] ∧
    ∀ number, (recordPosition segmentSize store.worker.next size).segment < number →
      store.disk.segment number = []

theorem Clean.clear {segmentSize : Nat} {store : Store} (clean : Clean segmentSize store)
    {size : Nat} (positive : 0 < size) : Clear segmentSize store size := by
  obtain ⟨none, later⟩ := clean size positive
  refine ⟨?_, fun number high => ?_⟩
  · rw [none, List.length_nil]
    omega
  · rw [later number high]
    decide

theorem freshStore_clean (segmentSize : Nat) (snapshot : Int → List UInt8) :
    Clean segmentSize (freshStore snapshot) := by
  intro size positive
  refine ⟨?_, fun number _ => rfl⟩
  rw [leftover]
  exact List.drop_nil

/-- An append over clean ground leaves clean ground. -/
theorem Clean.append {segmentSize : Nat} {store after : Store} {payload : List UInt8}
    (clean : Clean segmentSize store)
    (appended : kWalAppendBundle segmentSize store payload = some after) :
    Clean segmentSize after := by
  intro other positive
  have size : 0 < walHeaderSize + payload.length := by
    have header : walHeaderSize = 24 := rfl
    omega
  obtain ⟨files, next, -⟩ := append_effect appended
  obtain ⟨none, later⟩ := clean _ size
  generalize place : recordPosition segmentSize store.worker.next
    (walHeaderSize + payload.length) = position at files next later
  have written : (frame (store.worker.generation + 1) payload).length =
      walHeaderSize + payload.length := frame_length _ _
  have gone : ∀ number, position.segment < number → after.disk.segment number = [] := by
    intro number high
    rw [files, write_segment, if_neg (by omega)]
    exact later number high
  have here : (after.disk.segment position.segment).drop
      (position.offset + (walHeaderSize + payload.length)) = [] := by
    rw [files, write_segment, if_pos rfl, ← written, overlay_drop, ← List.drop_drop]
    simp only [leftover, place] at none
    rw [none, List.drop_nil]
  unfold leftover
  rw [next, next_position segmentSize position size positive]
  unfold recordPosition
  split
  · refine ⟨?_, fun number high => gone number (by simp only at high; omega)⟩
    simp only
    rw [gone _ (Nat.lt_succ_self _), List.drop_nil]
  · exact ⟨here, gone⟩

/-- Writing views on a clean store keeps the invariant and adds their records. -/
theorem writeViews_holds {segmentSize : Nat} (bounded : segmentSize < 256 ^ 8) (views : List View) :
    ∀ {store after : Store} {chunks : List Chunk}, Holds segmentSize store chunks →
    Clean segmentSize store → (∀ view ∈ views, view.record.Representable) →
    writeViews segmentSize store views = some after →
    ∃ grown, Holds segmentSize after grown ∧
      recordsOf grown = recordsOf chunks ++ views.map View.record := by
  induction views with
  | nil =>
    intro store after chunks holds _ _ written
    cases written
    exact ⟨chunks, holds, by simp⟩
  | cons view rest ih =>
    intro store after chunks holds clean representable written
    simp only [writeViews, Option.bind_eq_bind, Option.bind_eq_some_iff] at written
    obtain ⟨middle, first, others⟩ := written
    simp only [writeView, Option.bind_eq_bind, Option.bind_eq_some_iff] at first
    obtain ⟨bundle, serialized, appended⟩ := first
    obtain ⟨writable, payload⟩ :=
      kStateSerialize_writable (representable view (by simp)) serialized
    rw [payload] at appended
    have size : 0 < walHeaderSize + (recordBytes (recordOf view.1 view.2)).length := by
      have header : walHeaderSize = 24 := rfl
      omega
    obtain ⟨grown, holdsMiddle, records⟩ :=
      holds.append bounded writable (clean.clear size) appended
    obtain ⟨final, holdsAfter, all⟩ := ih holdsMiddle (clean.append appended)
      (fun other member => representable other (by simp [member])) others
    refine ⟨final, holdsAfter, ?_⟩
    rw [all, records, List.append_assoc, List.map_cons]
    rfl

/-! ## The fold -/

/-- The log the records describe. -/
def foldLog (records : List WalRecord) : List PersistEntry :=
  records.foldl (fun log record => IndexedLog.restate PersistEntry.index log record.entries) []

/-- The records carry ranges of entries above their own base, and the base only
advances. -/
structure Sequence (records : List WalRecord) : Prop where
  ascending : ∀ record ∈ records, IndexedLog.Ascending PersistEntry.index record.entries
  above : ∀ record ∈ records, ∀ entry ∈ record.entries, record.lastIncludedIndex < entry.index
  advance : BasesAdvance records

theorem Sequence.front {front back : List WalRecord} (sequence : Sequence (front ++ back)) :
    Sequence front :=
  ⟨fun record member => sequence.ascending record (List.mem_append_left back member),
    fun record member => sequence.above record (List.mem_append_left back member),
    sequence.advance.front⟩

theorem foldl_putEntry {entries log : List PersistEntry}
    (ascending : IndexedLog.Ascending PersistEntry.index log)
    (range : IndexedLog.Ascending PersistEntry.index entries)
    (positive : ∀ entry ∈ entries, 0 < entry.index) :
    entries.foldl (kRestorePutEntry 0) log = IndexedLog.restate PersistEntry.index log entries := by
  rw [← IndexedLog.foldl_put ascending range]
  clear range ascending
  induction entries generalizing log with
  | nil => rfl
  | cons entry rest ih =>
    have here := positive entry (by simp)
    rw [List.foldl_cons, List.foldl_cons, kRestorePutEntry, if_neg (by omega)]
    exact ih (fun other member => positive other (by simp [member]))

/-- Decoding the records in order builds their fold. -/
theorem restoreOf_entries {records : List WalRecord} (sequence : Sequence records) :
    (restoreOf records).entries = foldLog records ∧
      IndexedLog.Ascending PersistEntry.index (foldLog records) := by
  induction records using List.reverseRecOn with
  | nil => exact ⟨rfl, List.Pairwise.nil⟩
  | append_singleton front last ih =>
    obtain ⟨entries, ascending⟩ := ih sequence.front
    have range := sequence.ascending last (by simp)
    have positive : ∀ entry ∈ last.entries, 0 < entry.index := by
      intro entry member
      have base := sequence.advance.1 last (by simp)
      have higher := sequence.above last (by simp) entry member
      omega
    have folded : foldLog (front ++ [last]) =
        IndexedLog.restate PersistEntry.index (foldLog front) last.entries := by
      simp [foldLog]
    rw [restoreOf_snoc, folded]
    refine ⟨?_, ascending.restate range⟩
    simp only [decoded, entries]
    exact foldl_putEntry ascending range positive

/-! ## Term and vote -/

theorem restoreOf_term_snoc (front : List WalRecord) (last : WalRecord) :
    ((restoreOf front).term ≤ last.term →
        (restoreOf (front ++ [last])).term = last.term ∧
          (restoreOf (front ++ [last])).votedFor = last.votedFor) ∧
      (last.term < (restoreOf front).term →
        (restoreOf (front ++ [last])).term = (restoreOf front).term) := by
  rw [restoreOf_snoc]
  simp only [decoded, adoptHeader, adoptTermVote]
  by_cases higher : last.term > (restoreOf front).term
  · rw [if_pos higher]
    exact ⟨fun _ => ⟨rfl, rfl⟩, fun lower => by omega⟩
  · rw [if_neg higher]
    by_cases equal : last.term = (restoreOf front).term
    · rw [if_pos equal]
      exact ⟨fun _ => ⟨equal.symm, rfl⟩, fun lower => by omega⟩
    · rw [if_neg equal]
      exact ⟨fun bound => by omega, fun _ => rfl⟩

/-- The restored term is the highest of the records' terms and zero. -/
theorem restoreOf_term_le (records : List WalRecord) (bound : Int) :
    (restoreOf records).term ≤ bound ↔ 0 ≤ bound ∧ ∀ record ∈ records, record.term ≤ bound := by
  induction records using List.reverseRecOn with
  | nil => simp [restoreOf, Restore.empty]
  | append_singleton front last ih =>
    obtain ⟨adopted, kept⟩ := restoreOf_term_snoc front last
    simp only [List.mem_append, List.mem_singleton, or_imp, forall_and, forall_eq]
    rw [← and_assoc, ← ih]
    by_cases newest : (restoreOf front).term ≤ last.term
    · rw [(adopted newest).1]
      constructor
      · intro below
        exact ⟨le_trans newest below, below⟩
      · rintro ⟨-, below⟩
        exact below
    · rw [kept (not_le.mp newest)]
      constructor
      · intro below
        exact ⟨below, by omega⟩
      · rintro ⟨below, -⟩
        exact below

/-! ## The base record -/

/-- The entries of the record that first carried the newest base are still the
end of the log. -/
def BaseSettled (records : List WalRecord) : Prop :=
  0 < newestBase records → ∀ record ∈ baseRecord records, ∀ first ∈ record.entries.head?,
    (foldLog records).filter (fun entry => first.index ≤ entry.index) = record.entries

/-- Restating a log with a run above the base changes nothing above the base
exactly when the run is the end of the log. -/
theorem restate_filter_iff {log : List PersistEntry} {first : PersistEntry}
    {rest : List PersistEntry} {base : Int}
    (ascending : IndexedLog.Ascending PersistEntry.index log)
    (above : ∀ entry ∈ first :: rest, base < entry.index) :
    (IndexedLog.restate PersistEntry.index log (first :: rest)).filter
        (fun entry => entry.index > base) = log.filter (fun entry => entry.index > base) ↔
      log.filter (fun entry => first.index ≤ entry.index) = first :: rest := by
  have split := IndexedLog.cut_append_rest ascending first.index
  have run : (first :: rest).filter (fun entry => decide (entry.index > base)) = first :: rest :=
    List.filter_eq_self.mpr (by simpa using above)
  have ending : (log.filter (fun entry => first.index ≤ entry.index)).filter
      (fun entry => decide (entry.index > base)) =
        log.filter (fun entry => first.index ≤ entry.index) := by
    apply List.filter_eq_self.mpr
    intro entry member
    have high := (List.mem_filter.mp member).2
    have low := above first (by simp)
    simp only [decide_eq_true_eq] at high ⊢
    omega
  have whole : log.filter (fun entry => decide (entry.index > base)) =
      (IndexedLog.cut PersistEntry.index first.index log).filter
        (fun entry => decide (entry.index > base)) ++
        log.filter (fun entry => first.index ≤ entry.index) := by
    conv_lhs => rw [← split]
    rw [List.filter_append, ending]
  rw [IndexedLog.restate, List.filter_append, run, whole, List.append_cancel_left_eq]
  exact eq_comm

theorem kept_eq_fold_iff {records : List WalRecord} (sequence : Sequence records) :
    keptEntries records = (foldLog records).filter (fun entry => entry.index > newestBase records) ↔
      BaseSettled records := by
  obtain ⟨entries, ascending⟩ := restoreOf_entries sequence
  unfold keptEntries settled BaseSettled
  by_cases positive : 0 < newestBase records
  · rw [if_pos positive]
    cases found : baseRecord records with
    | none => simp [entries]
    | some record =>
      have member := List.mem_of_find?_eq_some found
      have carries := baseRecord_carries found
      have range := sequence.ascending record member
      have above := sequence.above record member
      have put := foldl_putEntry ascending range
        (fun entry inside => by have high := above entry inside; omega)
      simp only [decoded, entries, put]
      cases content : record.entries with
      | nil =>
        simp only [IndexedLog.restate, true_iff]
        intro _ other same first head
        cases same
        simp [content] at head
      | cons first rest =>
        rw [content, carries] at above
        rw [restate_filter_iff ascending above]
        simp [positive, content]
  · rw [if_neg positive, entries]
    exact ⟨fun _ impossible => absurd impossible positive, fun _ => rfl⟩

/-! ## The equivalence -/

/-- A load that returns the fold of the records above its base, with the term and
vote of the last record. -/
def RestoresFold (result : Except Refusal Loaded) (records : List WalRecord) : Prop :=
  ∃ loaded last, result = .ok loaded ∧ records.getLast? = some last ∧
    loaded.restore.lastIncludedIndex = last.lastIncludedIndex ∧
    loaded.restore.entries =
      (foldLog records).filter (fun entry => entry.index > loaded.restore.lastIncludedIndex) ∧
    loaded.restore.term = last.term ∧ loaded.restore.votedFor = last.votedFor

/-- When recovery returns the fold: no record before the last has a higher term,
the fold continues the base without a hole, and the base record is settled. -/
structure Recoverable (records : List WalRecord) : Prop where
  termNewest : ∀ last ∈ records.getLast?, 0 ≤ last.term ∧ ∀ record ∈ records, record.term ≤ last.term
  gapless : firstHole (newestBase records + 1)
    ((foldLog records).filter (fun entry => entry.index > newestBase records)) = none
  baseSettled : BaseSettled records

theorem settled_term (records : List WalRecord) :
    (settled records).term = (restoreOf records).term ∧
      (settled records).votedFor = (restoreOf records).votedFor := by
  unfold settled
  split
  · split <;> exact ⟨rfl, rfl⟩
  · exact ⟨rfl, rfl⟩

/-- A load of stored records returns their fold exactly when they are
recoverable. -/
theorem Stored.restoresFold_iff {disk : Disk} {slot : Nat} {chunks : List Chunk}
    (stored : Stored disk slot chunks) (written : recordsOf chunks ≠ [])
    (sequence : Sequence (recordsOf chunks))
    (verified : kSnapshotVerifyFile disk (newestBase (recordsOf chunks)) = true) :
    RestoresFold (kWalStateLoad disk) (recordsOf chunks) ↔ Recoverable (recordsOf chunks) := by
  have chunked : chunks ≠ [] := by
    rintro rfl
    exact written rfl
  obtain ⟨state, -, -, -, carries, load⟩ := stored.load chunked sequence.advance verified
  obtain ⟨term, vote⟩ := settled_term (recordsOf chunks)
  have kept := kept_eq_fold_iff sequence
  generalize recordsOf chunks = records at *
  constructor
  · rintro ⟨loaded, last, ok, isLast, base, entries, sameTerm, -⟩
    obtain ⟨front, rfl⟩ := List.getLast?_eq_some_iff.mp isLast
    rw [load] at ok
    cases hole : firstHole (newestBase (front ++ [last]) + 1) (keptEntries (front ++ [last])) with
    | some index =>
      rw [hole] at ok
      cases ok
    | none =>
      rw [hole] at ok
      cases ok
      simp only [carries] at entries
      refine ⟨?_, ?_, kept.mp entries⟩
      · rintro other member
        rw [isLast] at member
        cases member
        apply (restoreOf_term_le _ _).mp
        rw [← sameTerm]
        exact le_of_eq term.symm
      · rw [← entries]
        exact hole
  · rintro ⟨termNewest, gapless, baseSettled⟩
    have entries := kept.mpr baseSettled
    rw [← entries] at gapless
    rw [gapless] at load
    obtain ⟨front, last, rfl⟩ : ∃ front last, records = front ++ [last] := by
      rcases List.eq_nil_or_concat' records with empty | ⟨front, last, split⟩
      · exact absurd empty written
      · exact ⟨front, last, split⟩
    have isLast : (front ++ [last]).getLast? = some last := by simp
    obtain ⟨nonneg, highest⟩ := termNewest last isLast
    have newest : (restoreOf front).term ≤ last.term :=
      (restoreOf_term_le front last.term).mpr
        ⟨nonneg, fun record member => highest record (by simp [member])⟩
    obtain ⟨sameTerm, sameVote⟩ := (restoreOf_term_snoc front last).1 newest
    refine ⟨_, last, load, isLast, ?_, ?_, ?_, ?_⟩
    · rw [← newestBase_snoc front last]
      exact carries
    · simp only [carries]
      exact entries
    · exact term.trans sameTerm
    · exact vote.trans sameVote

/-- Recovery of any sequence of written views, with the snapshot of the newest base
intact: the load succeeds with the fold of the records and the last term and vote
exactly when the records are recoverable. -/
theorem recovery_is_fold_iff_recoverable {segmentSize : Nat} (bounded : segmentSize < 256 ^ 8)
    {snapshot : Int → List UInt8} {views : List View} (nonempty : views ≠ [])
    (representable : ∀ view ∈ views, view.record.Representable)
    (sequence : Sequence (views.map View.record)) {store : Store}
    (written : writeViews segmentSize (freshStore snapshot) views = some store)
    (verified : kSnapshotVerifyFile store.disk (newestBase (views.map View.record)) = true) :
    RestoresFold (kWalStateLoad store.disk) (views.map View.record) ↔
      Recoverable (views.map View.record) := by
  obtain ⟨chunks, holds, records⟩ := writeViews_holds bounded views
    (freshStore_holds segmentSize snapshot) (freshStore_clean segmentSize snapshot) representable
    written
  rw [show recordsOf [] ++ views.map View.record = views.map View.record from rfl] at records
  rw [← records] at sequence verified ⊢
  refine Stored.restoresFold_iff holds.toStored ?_ sequence verified
  rw [records]
  simpa using nonempty

/-! ## A lost entry -/

/-- A command entry without data. -/
def plainEntry (index : Int) : PersistEntry := ⟨index, 1, 0, [], [], [], []⟩

/-- A view of term 1 that leaves the snapshot as the cache has it. -/
def plainView (base : Int) (entries : List PersistEntry) : View :=
  (⟨4, [], [], []⟩, ⟨1, 1, base, base, false, 0, [], [], [], entries⟩)

/-- The snapshot base moves to 2 in a record that carries entry 3; entry 4 follows
in a record of its own. -/
def baseThenEntry : List View :=
  [plainView 0 [plainEntry 1, plainEntry 2], plainView 2 [plainEntry 3],
    plainView 2 [plainEntry 4]]

/-- An empty snapshot with its checksum. -/
def emptySnapshot : Int → List UInt8 := fun _ => [0, 0, 0, 0]

theorem baseThenEntry_representable : ∀ view ∈ baseThenEntry, view.record.Representable := by
  decide

theorem baseThenEntry_sequence : Sequence (baseThenEntry.map View.record) :=
  ⟨by decide, by decide, by decide⟩

theorem kSnapshotVerifyFile_congr {disk other : Disk} (same : disk.snapshot = other.snapshot)
    (index : Int) : kSnapshotVerifyFile disk index = kSnapshotVerifyFile other index := by
  simp only [kSnapshotVerifyFile, same]

/-- Written views leave the snapshots as they are. -/
theorem writeViews_snapshot {segmentSize : Nat} (views : List View) : ∀ {store after : Store},
    writeViews segmentSize store views = some after → after.disk.snapshot = store.disk.snapshot := by
  induction views with
  | nil =>
    intro store after written
    cases written
    rfl
  | cons view rest ih =>
    intro store after written
    simp only [writeViews, writeView, Option.bind_eq_bind, Option.bind_eq_some_iff] at written
    obtain ⟨middle, ⟨bundle, -, appended⟩, others⟩ := written
    rw [ih others, (append_effect appended).2.2]

/-- The load of these records returns entry 3 alone: decoding the base record a
second time cuts entry 4 from the log. -/
theorem baseThenEntry_loses_last :
    (∀ view ∈ baseThenEntry, view.record.Representable) ∧
      Sequence (baseThenEntry.map View.record) ∧
      ∃ store, writeViews 4096 (freshStore emptySnapshot) baseThenEntry = some store ∧
        kSnapshotVerifyFile store.disk (newestBase (baseThenEntry.map View.record)) = true ∧
        ¬ RestoresFold (kWalStateLoad store.disk) (baseThenEntry.map View.record) := by
  refine ⟨baseThenEntry_representable, baseThenEntry_sequence, ?_⟩
  have loaded : ((writeViews 4096 (freshStore emptySnapshot) baseThenEntry).bind
      (fun store => (kWalStateLoad store.disk).toOption)).map
        (fun loaded => loaded.restore.entries) = some [plainEntry 3] := by
    decide +kernel
  cases written : writeViews 4096 (freshStore emptySnapshot) baseThenEntry with
  | none =>
    rw [written] at loaded
    cases loaded
  | some store =>
    rw [written, Option.bind_some] at loaded
    refine ⟨store, rfl, ?_, ?_⟩
    · rw [kSnapshotVerifyFile_congr (writeViews_snapshot _ written)]
      decide +kernel
    · rintro ⟨result, last, ok, isLast, base, entries, -, -⟩
      rw [ok] at loaded
      have lastView : last = (plainView 2 [plainEntry 4]).record := by
        cases isLast
        rfl
      rw [base, lastView] at entries
      have both : (foldLog (baseThenEntry.map View.record)).filter (fun entry =>
          entry.index > (plainView 2 [plainEntry 4]).record.lastIncludedIndex) =
            [plainEntry 3, plainEntry 4] := by
        decide +kernel
      rw [both] at entries
      simp only [Except.toOption, Option.map_some, Option.some.injEq, entries] at loaded
      cases loaded

/-- The same views with the last entry in the base record are recovered. -/
theorem settled_base_recovered :
    ∃ store, writeViews 4096 (freshStore emptySnapshot)
        [plainView 0 [plainEntry 1, plainEntry 2], plainView 2 [plainEntry 3, plainEntry 4]] =
          some store ∧
      RestoresFold (kWalStateLoad store.disk)
        ([plainView 0 [plainEntry 1, plainEntry 2],
          plainView 2 [plainEntry 3, plainEntry 4]].map View.record) := by
  have some : (writeViews 4096 (freshStore emptySnapshot)
      [plainView 0 [plainEntry 1, plainEntry 2],
        plainView 2 [plainEntry 3, plainEntry 4]]).isSome = true := by
    decide +kernel
  obtain ⟨store, written⟩ := Option.isSome_iff_exists.mp some
  refine ⟨store, written, ?_⟩
  apply (recovery_is_fold_iff_recoverable (by decide) (by simp) (by decide)
    ⟨by decide, by decide, by decide⟩ written ?_).mpr
  · refine ⟨?_, by decide +kernel, ?_⟩
    · intro last isLast
      cases isLast
      decide
    · intro _ record found first head
      cases found
      cases head
      decide +kernel
  · rw [kSnapshotVerifyFile_congr (writeViews_snapshot _ written)]
    decide +kernel

end Kynovo.Wal.RecoveryFold
