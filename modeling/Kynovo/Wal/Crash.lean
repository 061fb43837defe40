import Kynovo.Wal.RecoveryFold

/-! Runs over repeated crashes. A boot loads the store and continues to append; a
crash leaves a prefix of the record being written. Nothing truncates what a crash
leaves behind, so a later record may cover it only in part: the conditions say when
the remaining bytes still read as a torn record. -/
namespace Kynovo.Wal.Crash
open Kynovo.Lib.LittleEndian
open Kynovo.Lib.FileBytes
open Kynovo.Wal.Record
open Kynovo.Wal.Append
open Kynovo.Wal.Recovery
open Kynovo.Wal.ScanProofs
open Kynovo.Wal.StoreProofs
open Kynovo.Wal.RecoveryFold

/-! ## Runs -/

/-- A store and the records whose append has completed. -/
structure Machine where
  store : Store
  completed : List WalRecord

inductive Event where
  | append (view : View)
  | crash (view : View) (kept : Nat)

/-- The disk a crash leaves while this view is being written. -/
def tornView (segmentSize : Nat) (store : Store) (view : View) (kept : Nat) : Disk :=
  match kStateSerialize view.1 view.2 with
  | none => store.disk
  | some bundle => tornAppend segmentSize store bundle.walPayload kept

/-- A crash is followed by the next boot. A view that cannot be written changes
nothing. -/
def step (segmentSize : Nat) (machine : Machine) : Event → Except Refusal Machine
  | .append view =>
    match writeView segmentSize machine.store view with
    | none => .ok machine
    | some store => .ok ⟨store, machine.completed ++ [view.record]⟩
  | .crash view kept =>
    match kServerOpen (tornView segmentSize machine.store view kept) with
    | .error refusal => .error refusal
    | .ok (store, _) => .ok ⟨store, machine.completed⟩

def run (segmentSize : Nat) : Machine → List Event → Except Refusal Machine
  | machine, [] => .ok machine
  | machine, event :: rest =>
    match step segmentSize machine event with
    | .error refusal => .error refusal
    | .ok after => run segmentSize after rest

/-- The first boot, on an empty base path. -/
def firstBoot (snapshot : Int → List UInt8) : Machine := ⟨freshStore snapshot, []⟩

/-! ## Torn bytes over torn bytes -/

/-- The first bytes of a record over a leftover tail still read as a torn record:
only bytes the two headers share were replaced, or there is no header, or the new
header announces more than there is. -/
theorem tornTail_overlay {generation kept : Nat} {payload old : List UInt8}
    (torn : TornTail generation old) (fits : generation < 256 ^ 8) (some : 0 < payload.length)
    (small : payload.length ≤ stateMax) (cutShort : kept < walHeaderSize + payload.length)
    (quiet : kept ≤ 16 ∨ max kept old.length < walHeaderSize ∨
      20 ≤ kept ∧ old.length < walHeaderSize + payload.length) :
    TornTail generation ((frame generation payload).take kept ++ old.drop kept) := by
  have header : walHeaderSize = 24 := rfl
  have length : ((frame generation payload).take kept ++ old.drop kept).length =
      max kept old.length := by
    simp only [List.length_append, List.length_take, List.length_drop, frame_length]
    omega
  by_cases short : max kept old.length < walHeaderSize
  · exact Or.inl (by omega)
  rcases quiet with shared | few | ⟨newHeader, missing⟩
  · -- Both headers start with the same sixteen bytes.
    have long : ¬ old.length < walHeaderSize := by omega
    obtain ⟨magic, version, field8, rest⟩ := torn.resolve_left long
    have same : (frame generation payload).take kept = old.take kept := by
      have sixteen : (frame generation payload).take 16 = old.take 16 := by
        have left : (frame generation payload).take 16 =
            leBytes 4 walMagic ++ (leBytes 4 walVersion ++ leBytes 8 generation) := by
          have whole : frame generation payload =
              (leBytes 4 walMagic ++ (leBytes 4 walVersion ++ leBytes 8 generation)) ++
                (leBytes 4 payload.length ++ (leBytes 4 (kCrc32 payload) ++ payload)) := by
            simp only [frame, walHeader, List.append_assoc]
          rw [whole, List.take_left' (by simp)]
        have right : old.take 16 = (old.drop 0).take 4 ++ ((old.drop 4).take 4 ++
            (old.drop 8).take 8) := by
          have first := @List.take_add _ old 4 12
          have second := @List.take_add _ (old.drop 4) 4 8
          rw [List.drop_drop] at second
          rw [List.drop_zero, ← second]
          exact first
        have part : ∀ offset width value, offset + width ≤ 24 → fieldAt old offset width = value →
            (old.drop offset).take width = leBytes width value := by
          intro offset width value inside field
          have read := leBytes_leNat ((old.drop offset).take width)
          have wide : ((old.drop offset).take width).length = width := by
            simp only [List.length_take, List.length_drop]
            omega
          rw [wide] at read
          rw [← read, ← field]
          rfl
        rw [left, right, part 0 4 _ (by omega) magic, part 4 4 _ (by omega) version,
          part 8 8 _ (by omega) field8]
      have both := congrArg (List.take kept) sixteen
      rwa [List.take_take, List.take_take, Nat.min_eq_left shared] at both
    rw [same, List.take_append_drop]
    exact torn
  · exact absurd few short
  · have field : ∀ offset width, offset + width ≤ 20 →
        fieldAt ((frame generation payload).take kept ++ old.drop kept) offset width =
          fieldAt (walHeader generation payload ++ payload) offset width := by
      intro offset width inside
      have low : offset + width ≤ ((frame generation payload).take kept).length := by
        rw [List.length_take, frame_length]
        omega
      unfold fieldAt
      rw [List.drop_append_of_le_length (by omega), List.take_append_of_le_length (by
        rw [List.length_drop]; omega), List.drop_take, List.take_take, Nat.min_eq_left (by omega),
        frame]
    obtain ⟨magic, version, field8, field16, -⟩ := walHeader_fields fits small payload
    right
    rw [field 0 4 (by omega), field 4 4 (by omega), field 8 8 (by omega), field 16 4 (by omega),
      length, magic, version, field8, field16]
    exact ⟨rfl, rfl, rfl, some, small, by omega⟩

theorem names_congr {state : WalMetaState} {chunks other : List Chunk} (names : Names state chunks)
    (length : other.length = chunks.length) (ends : endOf other = endOf chunks)
    (records : recordsOf other = recordsOf chunks) : Names state other := by
  have empty : other = [] ↔ chunks = [] := by
    rw [← List.length_eq_zero_iff, ← List.length_eq_zero_iff, length]
  refine ⟨fun none => names.unused (empty.mp none), fun some => ?_, ?_⟩
  · rw [length, ends]
    exact names.used (fun none => some (empty.mpr none))
  · rw [records]
    exact names.known

/-- A crash while a record of this payload is written leaves a torn tail at its
position and every completed record in place. -/
theorem Holds.tear {segmentSize : Nat} {store : Store} {chunks : List Chunk}
    {payload : List UInt8} {kept : Nat} (holds : Holds segmentSize store chunks)
    (small : payload.length ≤ stateMax) (cutShort : kept < walHeaderSize + payload.length)
    (quiet : kept ≤ 16 ∨
      max kept (leftover segmentSize store (walHeaderSize + payload.length)).length <
        walHeaderSize ∨
      20 ≤ kept ∧ (leftover segmentSize store (walHeaderSize + payload.length)).length <
        walHeaderSize + payload.length) :
    ∃ torn, Stored (tornAppend segmentSize store payload kept) store.worker.metaSlot torn ∧
      recordsOf torn = recordsOf chunks := by
  unfold tornAppend
  by_cases empty : payload.isEmpty = true
  · rw [if_pos empty]
    exact ⟨chunks, holds.toStored, rfl⟩
  by_cases full : store.worker.generation = u64Max
  · rw [if_neg empty, if_pos full]
    exact ⟨chunks, holds.toStored, rfl⟩
  rw [if_neg empty, if_neg full]
  have header : walHeaderSize = 24 := rfl
  have size : 0 < walHeaderSize + payload.length := by omega
  have counted := holds.generation
  have fits : (recordsOf chunks).length + 1 < 256 ^ 8 := by
    have limit : u64Max + 1 = 256 ^ 8 := by decide
    have bound := holds.fits
    omega
  have some : 0 < payload.length := List.length_pos_of_ne_nil (by simpa using empty)
  rw [counted]
  rcases holds.record_position size with ⟨front, records, tail, rfl, inside, -⟩ | next
  · obtain ⟨before, nonempty, file, torn, -⟩ := (layout_append front).mp holds.layout
    simp only [Nat.zero_add] at file
    have count : (recordsOf (front ++ [(records, tail)])).length =
        (recordsOf front).length + records.length := by
      simp [recordsOf]
    simp only [leftover, inside, file, List.drop_left] at quiet
    rw [inside]
    refine ⟨front ++ [(records, (frame ((recordsOf (front ++ [(records, tail)])).length + 1)
      payload).take kept ++ tail.drop kept)], ⟨?_, ?_, ?_, ?_, ?_, ?_⟩, ?_⟩
    · refine (layout_append front).mpr ⟨layout_congr front (fun number _ high => ?_) before, ?_⟩
      · rw [write_segment, if_neg (by simp only; omega)]
      · refine ⟨nonempty, ?_, ?_, trivial⟩
        · have written : ((frame ((recordsOf (front ++ [(records, tail)])).length + 1)
              payload).take kept).length = kept := by
            rw [List.length_take, frame_length]
            omega
          simp only [Nat.zero_add]
          rw [write_segment, if_pos rfl]
          dsimp only
          rw [file, overlay_at_end, written, List.append_assoc]
        · rw [count] at fits ⊢
          rw [Nat.zero_add] at torn ⊢
          exact tornTail_overlay torn fits some small cutShort quiet
    · simpa [recordsOf] using holds.writable
    · rw [write_segment, if_neg (by simp)]
      simpa [recordsOf] using holds.behind
    · intro number high
      rw [write_segment, if_neg (by simp at high ⊢; omega)]
      exact holds.beyond number (by simpa using high)
    · simpa [recordsOf] using holds.fits
    · obtain ⟨state, inUse, names⟩ := holds.slot
      refine ⟨state, inUse, names_congr names (by simp) ?_ (by simp [recordsOf])⟩
      rw [endOf, endOf, layoutEnd_snoc, layoutEnd_snoc]
    · simp [recordsOf]
  · -- The torn record would have started the next segment.
    simp only [leftover, next, List.drop_zero] at quiet
    rw [next]
    refine ⟨chunks, ⟨?_, holds.writable, ?_, ?_, holds.fits, holds.slot⟩, rfl⟩
    · refine layout_congr chunks (fun number _ high => ?_) holds.layout
      rw [write_segment, if_neg (by simp only; omega)]
    · have written : ((frame ((recordsOf chunks).length + 1) payload).take kept).length = kept := by
        rw [List.length_take, frame_length]
        omega
      rw [write_segment, if_pos rfl]
      dsimp only
      rw [overlay_at_start, written]
      exact tornTail_overlay holds.behind fits some small cutShort quiet
    · intro number high
      rw [write_segment, if_neg (by simp only; omega)]
      exact holds.beyond number high

/-! ## Boots -/

/-- A load of a store without completed records finds none. -/
theorem Stored.load_empty {disk : Disk} {slot : Nat} (stored : Stored disk slot []) :
    kWalStateLoad disk = .ok ⟨Restore.empty, { WalMetaState.zero with slot }, false⟩ := by
  obtain ⟨state, inUse, names⟩ := stored.slot
  have zero := names.unused rfl
  subst zero
  have behind : TornTail 1 (disk.segment 0) := stored.behind
  have second : disk.segment 1 = [] := stored.beyond 1 (by simp)
  have walk : scanSegments disk true 0 (2 * (disk.segments.length + 0) + 8) 0 Scan.start =
      .ok Scan.start := by
    generalize 2 * (disk.segments.length + 0) = fuel
    have rest : scanSegments disk true 0 (fuel + 7) 1 Scan.start = .ok Scan.start := by
      rw [scanSegments, if_neg (by simp), if_neg (by decide), if_pos second, if_neg (by decide),
        scanSegments, if_neg (by simp), if_pos (by decide), if_pos rfl]
    rw [scanSegments, if_neg (by simp), if_neg (by decide)]
    by_cases empty : disk.segment 0 = []
    · rw [if_pos empty, if_neg (by decide)]
      exact rest
    · have quiet := @scanSegment_tail 1 0 (disk.segment 0).length [] (disk.segment 0) Cursor.start
        Scan.start behind (by omega) rfl (by simp [Follows, Cursor.start, Scan.start])
      rw [List.nil_append] at quiet
      rw [if_neg empty, quiet]
      exact rest
  have zeroNext : WalMetaState.zero.next.segment = 0 := rfl
  have unused : decide (WalMetaState.zero.generation = 0) = true := rfl
  simp only [kWalStateLoad, inUse.load, zeroNext, unused, walk]
  rfl

/-- A boot on stored records that load: the worker stands behind the last one. -/
theorem Stored.reopen {disk : Disk} {slot : Nat} {chunks : List Chunk} (segmentSize : Nat)
    (stored : Stored disk slot chunks) {state : WalMetaState} (sameSlot : state.slot = slot)
    (generation : state.generation = (recordsOf chunks).length) (next : state.next = endOf chunks) :
    Holds segmentSize ⟨disk, openWorker state⟩ chunks where
  layout := stored.layout
  writable := stored.writable
  behind := stored.behind
  beyond := stored.beyond
  fits := stored.fits
  slot := by
    simp only [openWorker, sameSlot]
    exact stored.slot
  generation := generation
  position := fun size _ => by simp only [openWorker, next]
  synced := Or.inl rfl

/-- What a load has to return for the completed records. -/
def Restores (result : Except Refusal Loaded) (records : List WalRecord) : Prop :=
  if records = [] then ∃ state, result = .ok ⟨Restore.empty, state, false⟩
  else RestoresFold result records

theorem kServerOpen_of_load {disk : Disk} {loaded : Loaded} (present : disk.metaFile ≠ .absent)
    (load : kWalStateLoad disk = .ok loaded) :
    kServerOpen disk = .ok (⟨disk, openWorker loaded.state⟩, loaded) := by
  simp only [kServerOpen, load, present, false_and, if_false]

/-- A boot on stored records that are recoverable succeeds. -/
theorem Stored.boot {disk : Disk} {slot : Nat} {chunks : List Chunk} (segmentSize : Nat)
    (stored : Stored disk slot chunks) (sequence : Sequence (recordsOf chunks))
    (verified : kSnapshotVerifyFile disk (newestBase (recordsOf chunks)) = true)
    (recoverable : recordsOf chunks ≠ [] → Recoverable (recordsOf chunks)) :
    ∃ store loaded, kServerOpen disk = .ok (store, loaded) ∧ store.disk = disk ∧
      Holds segmentSize store chunks ∧ Restores (kWalStateLoad disk) (recordsOf chunks) := by
  have present : disk.metaFile ≠ .absent := by
    obtain ⟨state, inUse, -⟩ := stored.slot
    obtain ⟨first, second, -, slots, -⟩ := inUse.slots
    rw [slots]
    exact fun impossible => by cases impossible
  by_cases empty : recordsOf chunks = []
  · have none : chunks = [] := by
      have few := layout_length_le chunks stored.layout
      rw [empty] at few
      exact List.length_eq_zero_iff.mp (by simpa using few)
    subst none
    have load := Stored.load_empty stored
    refine ⟨_, _, kServerOpen_of_load present load, rfl,
      Stored.reopen segmentSize stored rfl rfl rfl, ?_⟩
    rw [Restores, if_pos empty]
    exact ⟨_, load⟩
  · have chunked : chunks ≠ [] := by
      rintro rfl
      exact empty rfl
    have restores := (Stored.restoresFold_iff stored empty sequence verified).mpr
      (recoverable empty)
    obtain ⟨state, sameSlot, generation, next, -, load⟩ :=
      stored.load chunked sequence.advance verified
    have gapless : firstHole (newestBase (recordsOf chunks) + 1)
        (keptEntries (recordsOf chunks)) = none := by
      rw [(kept_eq_fold_iff sequence).mpr (recoverable empty).baseSettled]
      exact (recoverable empty).gapless
    rw [gapless] at load
    refine ⟨_, _, kServerOpen_of_load present load, rfl,
      Stored.reopen segmentSize stored sameSlot generation next, ?_⟩
    rw [Restores, if_neg empty]
    exact restores

/-! ## Every boot of a run -/

/-- What the caller of the log provides: records that continue the sequence, with
the snapshot of their base intact, and a tear inside the record. -/
def Offered (machine : Machine) : Event → Prop
  | .append view => view.record.Representable ∧ Sequence (machine.completed ++ [view.record]) ∧
      kSnapshotVerifyFile machine.store.disk view.record.lastIncludedIndex = true
  | .crash view kept => view.record.Representable ∧
      kept < walHeaderSize + (recordBytes view.record).length

/-- When a step leaves the log readable. A complete record covers the leftover bytes
at its position up to less than a header. A torn one replaces only what two headers
share, or leaves no header, or announces more than there is; and the completed records
are recoverable. -/
def Meets (segmentSize : Nat) (machine : Machine) : Event → Prop
  | .append view =>
    Clear segmentSize machine.store (walHeaderSize + (recordBytes view.record).length)
  | .crash view kept =>
    let old := (leftover segmentSize machine.store
      (walHeaderSize + (recordBytes view.record).length)).length
    (kept ≤ 16 ∨ max kept old < walHeaderSize ∨
      20 ≤ kept ∧ old < walHeaderSize + (recordBytes view.record).length) ∧
    (machine.completed ≠ [] → Recoverable machine.completed)

/-- A property of the steps of a run, each judged in the state before it. -/
def Along (segmentSize : Nat) (property : Machine → Event → Prop) : Machine → List Event → Prop
  | _, [] => True
  | machine, event :: rest => property machine event ∧
    ∀ after, step segmentSize machine event = .ok after → Along segmentSize property after rest

/-- The invariant between the steps of a run. -/
structure Consistent (segmentSize : Nat) (machine : Machine) : Prop where
  holds : ∃ chunks, Holds segmentSize machine.store chunks ∧ recordsOf chunks = machine.completed
  sequence : Sequence machine.completed
  verified : kSnapshotVerifyFile machine.store.disk (newestBase machine.completed) = true

theorem firstBoot_consistent (segmentSize : Nat) (snapshot : Int → List UInt8) :
    Consistent segmentSize (firstBoot snapshot) where
  holds := ⟨[], freshStore_holds segmentSize snapshot, rfl⟩
  sequence := ⟨by simp [firstBoot], by simp [firstBoot], by simp [firstBoot, BasesAdvance]⟩
  verified := rfl

theorem tornView_snapshot (segmentSize : Nat) (store : Store) (view : View) (kept : Nat) :
    (tornView segmentSize store view kept).snapshot = store.disk.snapshot := by
  unfold tornView
  split
  · rfl
  · unfold tornAppend
    split
    · rfl
    · split <;> rfl

/-- The step of the invariant: no step that meets the condition is refused. -/
theorem Consistent.step {segmentSize : Nat} (bounded : segmentSize < 256 ^ 8) {machine : Machine}
    (consistent : Consistent segmentSize machine) {event : Event} (offered : Offered machine event)
    (meets : Meets segmentSize machine event) :
    ∃ after, Crash.step segmentSize machine event = .ok after ∧ Consistent segmentSize after := by
  obtain ⟨chunks, holds, records⟩ := consistent.holds
  cases event with
  | append view =>
    obtain ⟨representable, sequence, verified⟩ := offered
    simp only [Crash.step]
    cases written : writeView segmentSize machine.store view with
    | none => exact ⟨machine, rfl, consistent⟩
    | some store =>
      refine ⟨_, rfl, ?_⟩
      simp only [writeView, Option.bind_eq_bind, Option.bind_eq_some_iff] at written
      obtain ⟨bundle, serialized, appended⟩ := written
      obtain ⟨writable, payload⟩ := kStateSerialize_writable representable serialized
      rw [payload] at appended
      obtain ⟨grown, holdsAfter, more⟩ := holds.append bounded writable meets appended
      refine ⟨⟨grown, holdsAfter, ?_⟩, sequence, ?_⟩
      · rw [more, records]
        rfl
      · rw [newestBase_snoc, kSnapshotVerifyFile_congr (append_effect appended).2.2]
        exact verified
  | crash view kept =>
    obtain ⟨representable, cutShort⟩ := offered
    obtain ⟨quiet, recoverable⟩ := meets
    obtain ⟨torn, stored, same⟩ : ∃ torn, Stored (tornView segmentSize machine.store view kept)
        machine.store.worker.metaSlot torn ∧ recordsOf torn = recordsOf chunks := by
      unfold tornView
      cases serialized : kStateSerialize view.1 view.2 with
      | none => exact ⟨chunks, holds.toStored, rfl⟩
      | some bundle =>
        obtain ⟨writable, payload⟩ := kStateSerialize_writable representable serialized
        simp only [payload]
        exact Holds.tear holds writable.small cutShort quiet
    have all : recordsOf torn = machine.completed := same.trans records
    have verified : kSnapshotVerifyFile (tornView segmentSize machine.store view kept)
        (newestBase machine.completed) = true := by
      rw [kSnapshotVerifyFile_congr (tornView_snapshot _ _ _ _)]
      exact consistent.verified
    obtain ⟨store, loaded, opened, disk, holdsAfter, -⟩ := Stored.boot segmentSize stored
      (by rw [all]; exact consistent.sequence) (by rw [all]; exact verified)
      (by rw [all]; exact recoverable)
    refine ⟨⟨store, machine.completed⟩, by simp only [Crash.step, opened],
      ⟨torn, holdsAfter, all⟩, consistent.sequence, ?_⟩
    simp only [disk]
    exact verified

theorem Consistent.run {segmentSize : Nat} (bounded : segmentSize < 256 ^ 8) (events : List Event) :
    ∀ {machine : Machine}, Consistent segmentSize machine →
    Along segmentSize Offered machine events →
    Along segmentSize (Meets segmentSize) machine events →
    ∃ after, Crash.run segmentSize machine events = .ok after ∧ Consistent segmentSize after := by
  induction events with
  | nil =>
    intro machine consistent _ _
    exact ⟨machine, rfl, consistent⟩
  | cons event rest ih =>
    intro machine consistent offered meets
    obtain ⟨middle, stepped, kept⟩ := consistent.step bounded offered.1 meets.1
    obtain ⟨after, ran, final⟩ := ih kept (offered.2 middle stepped) (meets.2 middle stepped)
    exact ⟨after, by simp only [Crash.run, stepped, ran], final⟩

/-- Over any number of boots and crashes whose steps meet the condition, no load is
refused, and a load in the state reached returns exactly the completed records. -/
theorem every_boot_recovers {segmentSize : Nat} (bounded : segmentSize < 256 ^ 8)
    {snapshot : Int → List UInt8} {events : List Event}
    (offered : Along segmentSize Offered (firstBoot snapshot) events)
    (meets : Along segmentSize (Meets segmentSize) (firstBoot snapshot) events) :
    ∃ machine, run segmentSize (firstBoot snapshot) events = .ok machine ∧
      ((machine.completed ≠ [] → Recoverable machine.completed) →
        Restores (kWalStateLoad machine.store.disk) machine.completed) := by
  obtain ⟨machine, ran, consistent⟩ := (firstBoot_consistent segmentSize snapshot).run bounded
    events offered meets
  refine ⟨machine, ran, fun recoverable => ?_⟩
  obtain ⟨chunks, holds, records⟩ := consistent.holds
  obtain ⟨-, -, -, -, -, restores⟩ := Stored.boot segmentSize holds.toStored
    (by rw [records]; exact consistent.sequence) (by rw [records]; exact consistent.verified)
    (by rw [records]; exact recoverable)
  rw [records] at restores
  exact restores

/-! ## A torn tail that is not covered -/

/-- A view with one entry of this many data bytes. -/
def dataView (size : Nat) : View :=
  plainView 0 [{ plainEntry 1 with data := List.replicate size 7 }]

/-- The first boot crashes 150 bytes into a longer record, the second completes a
shorter one at the same position and crashes before writing more. -/
def uncoveredTail : List Event :=
  [.crash (dataView 200) 150, .append (plainView 0 []), .crash (plainView 0 []) 0]

/-- The third boot finds the rest of the torn record behind the complete one and
refuses to start. -/
theorem uncoveredTail_refused :
    Along 4096 Offered (firstBoot emptySnapshot) uncoveredTail ∧
      run 4096 (firstBoot emptySnapshot) uncoveredTail = .error (.magicMismatch 0 76) := by
  constructor
  · refine ⟨⟨by decide, by decide +kernel⟩, fun first booted => ⟨⟨by decide, ?_, rfl⟩,
      fun second _ => ⟨⟨by decide, by decide⟩, fun third _ => trivial⟩⟩⟩
    have none : first.completed = [] := by
      simp only [step] at booted
      split at booted
      · cases booted
      · cases booted
        rfl
    rw [none]
    exact ⟨by decide, by decide, by decide⟩
  · have refused : (match run 4096 (firstBoot emptySnapshot) uncoveredTail with
        | .error refusal => decide (refusal = .magicMismatch 0 76)
        | .ok _ => false) = true := by
      decide +kernel
    split at refused
    · rename_i refusal ran
      rw [ran, of_decide_eq_true refused]
    · cases refused

/-- A crash behind one completed record, over clean ground, is recovered. -/
theorem cleanTail_recovered :
    ∃ machine, run 4096 (firstBoot emptySnapshot)
        [.append (plainView 0 [plainEntry 1]), .crash (dataView 200) 150] = .ok machine ∧
      ((machine.completed ≠ [] → Recoverable machine.completed) →
        Restores (kWalStateLoad machine.store.disk) machine.completed) := by
  have size : 0 < walHeaderSize +
      (recordBytes (View.record (plainView 0 [plainEntry 1]))).length := by decide
  have appended : ∀ machine, step 4096 (firstBoot emptySnapshot)
      (.append (plainView 0 [plainEntry 1])) = .ok machine →
      machine.completed = [View.record (plainView 0 [plainEntry 1])] ∧
        Clean 4096 machine.store := by
    intro machine stepped
    simp only [step] at stepped
    split at stepped
    · rename_i none
      have written : (writeView 4096 (freshStore emptySnapshot)
          (plainView 0 [plainEntry 1])).isSome = true := by decide +kernel
      rw [show (firstBoot emptySnapshot).store = freshStore emptySnapshot from rfl] at none
      rw [none] at written
      cases written
    · rename_i store written
      cases stepped
      simp only [writeView, Option.bind_eq_bind, Option.bind_eq_some_iff] at written
      obtain ⟨bundle, -, worker⟩ := written
      exact ⟨rfl, (freshStore_clean 4096 emptySnapshot).append worker⟩
  refine every_boot_recovers (by decide)
    ⟨⟨by decide, ⟨by decide, by decide, by decide⟩, rfl⟩, fun machine stepped =>
      ⟨⟨by decide +kernel, by decide +kernel⟩, fun _ _ => trivial⟩⟩
    ⟨(freshStore_clean 4096 emptySnapshot).clear size, fun machine stepped =>
      ⟨⟨Or.inr (Or.inr ⟨by decide, ?_⟩), fun _ => ?_⟩, fun _ _ => trivial⟩⟩
  · have clean := (appended machine stepped).2
    rw [(clean _ (by decide +kernel)).1]
    decide +kernel
  · rw [(appended machine stepped).1]
    refine ⟨?_, by decide, fun positive => absurd positive (by decide)⟩
    intro last isLast
    cases isLast
    decide

end Kynovo.Wal.Crash
