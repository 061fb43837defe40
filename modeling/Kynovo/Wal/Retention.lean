import Kynovo.Wal.RecoveryFold

/-! Released segments. The cleanup behind a snapshot removes the segments below
the oldest one still needed, so a walk starts with segments that hold no byte. It
visits a bounded number of them and then jumps close to the write position. -/
namespace Kynovo.Wal.Retention
open Kynovo.Lib.FileBytes
open Kynovo.Wal.Record
open Kynovo.Wal.Append
open Kynovo.Wal.Recovery
open Kynovo.Wal.ScanProofs
open Kynovo.Wal.StoreProofs

/-! ## Cleanup and the walk -/

/-- Remove a superseded snapshot and every segment below the one to keep. -/
def kSnapshotWorkerCleanup (disk : Disk) (keepSegment : Nat) (oldSnapshotIndex : Int) : Disk :=
  { disk with
    segments := disk.segments.mapIdx (fun number bytes => if number < keepSegment then [] else bytes)
    snapshot := fun index =>
      if 0 < oldSnapshotIndex ∧ index = oldSnapshotIndex then [] else disk.snapshot index }

theorem cleanup_segment (disk : Disk) (keepSegment : Nat) (oldSnapshotIndex : Int) (number : Nat) :
    (kSnapshotWorkerCleanup disk keepSegment oldSnapshotIndex).segment number =
      if number < keepSegment then [] else disk.segment number := by
  simp only [kSnapshotWorkerCleanup, Disk.segment, List.getD_eq_getElem?_getD, List.getElem?_mapIdx]
  cases disk.segments[number]? with
  | none => simp
  | some bytes =>
    by_cases below : number < keepSegment
    · simp [below]
    · simp [below]

/-- What the metadata leaves to the walk: the state it names, and whether the
segments alone decide where the walk ends. -/
def walkBounds (file : MetaFile) : Option (WalMetaState × Bool) :=
  match kWalMetaLoad file with
  | .damaged => none
  | .absent => some (WalMetaState.zero, true)
  | .found state => some (state, decide (state.generation = 0))

/-- The walk of a load. -/
def kWalScan (disk : Disk) : Except Refusal (WalMetaState × Bool × Scan) :=
  match walkBounds disk.metaFile with
  | none => .error .metadataUndecodable
  | some (state, metaAbsent) =>
    match scanSegments disk metaAbsent state.next.segment
        (2 * (disk.segments.length + state.next.segment) + 8) 0 Scan.start with
    | .error refusal => .error refusal
    | .ok scan => .ok (state, metaAbsent, scan)

/-- The scan is what reading these records leaves, in this order and with
consecutive generations, wherever they lie. -/
inductive Takes (disk : Disk) (first : Nat) : List WalRecord → Scan → Prop where
  | start : Takes disk first [] Scan.start
  | jump {scan : Scan} : Takes disk first [] scan →
      Takes disk first [] { scan with jumpedToTail := true }
  | take {records : List WalRecord} {record : WalRecord} {scan next : Scan} {place : Place} :
      Takes disk first records scan → HoldsAt disk place record →
      scan.take place (first + records.length + 1) (recordBytes record) = some next →
      Takes disk first (records ++ [record]) next
  | leave {records : List WalRecord} {scan : Scan} (cursor : Cursor) (ended : SegmentEnd) :
      Takes disk first records scan → Takes disk first records (scan.leaveSegment cursor ended)

theorem leaveSegment_records (scan : Scan) (cursor : Cursor) (ended : SegmentEnd) :
    (scan.leaveSegment cursor ended).records = scan.records := by
  unfold Scan.leaveSegment
  split <;> rfl

theorem Takes.count {disk : Disk} {first : Nat} {records : List WalRecord} {scan : Scan}
    (takes : Takes disk first records scan) : scan.records = records.length := by
  induction takes with
  | start => rfl
  | jump _ ih => exact ih
  | take _ holds read ih =>
    rw [take_recordBytes holds.writable] at read
    cases read
    rw [taken_records, ih, List.length_append, List.length_singleton]
  | leave cursor ended _ ih => rw [leaveSegment_records, ih]

theorem takes_carries (disk : Disk) (first : Nat) (all : List WalRecord) :
    Carries disk first all (Takes disk first) where
  step := fun _ takes holds => takes.take holds (take_recordBytes holds.writable _ _ _)
  leave := fun cursor ended takes => takes.leave cursor ended
  count := fun takes => takes.count

/-- The walk of a load reads exactly these records, in order. -/
def ReadsAll (disk : Disk) (first : Nat) (records : List WalRecord) : Prop :=
  ∃ state metaAbsent scan, kWalScan disk = .ok (state, metaAbsent, scan) ∧
    Takes disk first records scan

/-! ## Stores with released segments -/

/-- From a segment on the disk holds these chunks, the first record of which has the
generation above the given one, and nothing else that reads as a record. -/
structure Tail (disk : Disk) (segment generation : Nat) (chunks : List Chunk) : Prop where
  layout : Layout disk segment generation chunks
  some : chunks ≠ []
  writable : ∀ record ∈ recordsOf chunks, record.Writable
  behind : TornTail (generation + (recordsOf chunks).length + 1)
    (disk.segment (segment + chunks.length))
  beyond : ∀ number, segment + chunks.length < number → disk.segment number = []
  fits : generation + (recordsOf chunks).length < 256 ^ 8

/-- The segments below `released` are gone and the ones from there on hold the
chunks. Metadata in use names the newest segment or the one behind it. -/
structure Retained (disk : Disk) (released generation : Nat) (chunks : List Chunk) : Prop
    extends Tail disk released generation chunks where
  empty : ∀ number, number < released → disk.segment number = []
  bounds : ∃ state metaAbsent, walkBounds disk.metaFile = Option.some (state, metaAbsent) ∧
    (metaAbsent = false → state.next.segment + 1 = released + chunks.length ∨
      state.next.segment = released + chunks.length)

theorem recordsOf_take_drop (chunks : List Chunk) (count : Nat) :
    recordsOf chunks = recordsOf (chunks.take count) ++ recordsOf (chunks.drop count) := by
  rw [recordsOf, recordsOf, recordsOf, ← List.flatMap_append, List.take_append_drop]

theorem Tail.drop {disk : Disk} {segment generation : Nat} {chunks : List Chunk}
    (tail : Tail disk segment generation chunks) {count : Nat} (fewer : count < chunks.length) :
    Tail disk (segment + count) (generation + (recordsOf (chunks.take count)).length)
      (chunks.drop count) := by
  have split := recordsOf_take_drop chunks count
  have length : generation + (recordsOf (chunks.take count)).length +
      (recordsOf (chunks.drop count)).length = generation + (recordsOf chunks).length := by
    rw [split, List.length_append, Nat.add_assoc]
  have last : segment + count + (chunks.drop count).length = segment + chunks.length := by
    rw [List.length_drop]
    omega
  constructor
  · have both := tail.layout
    rw [← List.take_append_drop count chunks, layout_append] at both
    have short : (chunks.take count).length = count := by
      rw [List.length_take]
      omega
    rw [short] at both
    exact both.2
  · intro none
    rw [List.drop_eq_nil_iff] at none
    omega
  · intro record member
    apply tail.writable record
    rw [split]
    exact List.mem_append_right _ member
  · rw [length, last]
    exact tail.behind
  · rw [last]
    exact tail.beyond
  · rw [length]
    exact tail.fits

/-- The last segment of a tail exists. -/
theorem Tail.segments {disk : Disk} {segment generation : Nat} {chunks : List Chunk}
    (tail : Tail disk segment generation chunks) :
    segment + chunks.length ≤ disk.segments.length := by
  rcases List.eq_nil_or_concat' chunks with rfl | ⟨front, ⟨records, bytes⟩, rfl⟩
  · exact absurd rfl tail.some
  · obtain ⟨-, some, file, -⟩ := (layout_append front).mp tail.layout
    rw [List.length_append, List.length_singleton]
    by_contra short
    have missing : disk.segment (segment + front.length) = [] := by
      rw [Disk.segment, List.getD_eq_default]
      omega
    rw [missing] at file
    exact frames_ne_nil _ some (List.append_eq_nil_iff.mp file.symm).1

/-- A walk that starts at or below a tail, with nothing but released segments in
between, reads the whole tail. -/
theorem Tail.walk {disk : Disk} {segment generation : Nat} {chunks : List Chunk}
    (tail : Tail disk segment generation chunks) {metaAbsent : Bool}
    {lastSegment fuel start : Nat} {scan : Scan} (low : start ≤ segment)
    (empty : ∀ number, start ≤ number → number < segment → disk.segment number = [])
    (fresh : Takes disk generation [] scan) (unread : scan.prevSegmentGeneration = 0)
    (reach : scan.jumpedToTail = true ∨ segment < emptyCeiling metaAbsent)
    (bound : metaAbsent = false →
      lastSegment + 1 = segment + chunks.length ∨ lastSegment = segment + chunks.length)
    (enough : segment - start + chunks.length + 2 < fuel) :
    ∃ scan', scanSegments disk metaAbsent lastSegment fuel start scan = .ok scan' ∧
      Takes disk generation (recordsOf chunks) scan' := by
  obtain ⟨count, rfl⟩ : ∃ count, segment = start + count := ⟨segment - start, by omega⟩
  obtain ⟨fuel, rfl⟩ : ∃ less, fuel = less + count := ⟨fuel - count, by omega⟩
  have some := List.length_pos_of_ne_nil tail.some
  have skip := @scanSegments_released disk metaAbsent lastSegment fuel scan fresh.count count start
    empty
    (by
      intro present
      have last := bound present
      omega)
    (by
      rcases reach with jumped | below
      · exact .inl jumped
      · exact .inr (by omega))
  rw [skip]
  obtain ⟨final, walked, takes, -⟩ := @scanSegments_chunks disk generation (recordsOf chunks)
    (Takes disk generation) (takes_carries disk generation _) metaAbsent lastSegment chunks
    (start + count) fuel [] scan ⟨scan.newest.segment, scan.newest.offset + scan.newest.size⟩
    (by simp) (by simpa using tail.layout) fresh ⟨rfl, rfl⟩ (by simpa using unread)
    (fun _ => ⟨tail.some, reach⟩) tail.writable (by simpa using tail.fits) bound
    (by simpa using tail.behind) (fun _ => tail.beyond _ (by omega)) (by omega)
  exact ⟨final, walked, by simpa using takes⟩

/-! ## The jump -/

/-- With metadata in use, a walk that meets nothing below the ceiling continues
close to the write position. -/
theorem scanSegments_jumps {disk : Disk} {lastSegment fuel : Nat}
    (empty : ∀ number, number < scanEmptyPrefixMax → disk.segment number = [])
    (reached : scanEmptyPrefixMax ≤ lastSegment) :
    scanSegments disk false lastSegment (fuel + 1 + scanEmptyPrefixMax) 0 Scan.start =
      scanSegments disk false lastSegment fuel (lastSegment - scanTailSegments)
        { Scan.start with jumpedToTail := true } := by
  have ceiling : scanEmptyPrefixMax = 64 := rfl
  have near : scanTailSegments = 8 := rfl
  rw [scanSegments_released rfl scanEmptyPrefixMax (fun number _ below => empty number (by omega))
    (fun _ => by omega) (.inr (by simp [emptyCeiling])), Nat.zero_add, scanSegments,
    if_neg (by omega), if_pos ⟨rfl, rfl, by simp⟩]
  simp only [Bool.false_eq_true, if_false]
  rw [if_pos (by omega), show lastSegment - scanTailSegments - 1 + 1 =
    lastSegment - scanTailSegments by omega]

/-- Without metadata, a walk that meets nothing below the ceiling ends. -/
theorem scanSegments_gives_up {disk : Disk} {lastSegment fuel : Nat}
    (empty : ∀ number, number < scanEmptyPrefixMaxUnusedSlot → disk.segment number = []) :
    scanSegments disk true lastSegment (fuel + 1 + scanEmptyPrefixMaxUnusedSlot) 0 Scan.start =
      .ok Scan.start := by
  rw [scanSegments_released rfl scanEmptyPrefixMaxUnusedSlot
    (fun number _ below => empty number (by omega)) (by simp) (.inr (by simp [emptyCeiling])),
    Nat.zero_add, scanSegments, if_neg (by simp), if_pos ⟨rfl, rfl, by simp⟩]
  simp

/-- The walk gets to the first retained segment: fewer segments were released than
it visits, or the write position is close enough to where they end. -/
def WithinReach (disk : Disk) (released : Nat) : Prop :=
  match walkBounds disk.metaFile with
  | none => False
  | some (state, false) =>
    released < scanEmptyPrefixMax ∨ state.next.segment ≤ released + scanTailSegments
  | some (_, true) => released < scanEmptyPrefixMaxUnusedSlot

theorem fewer_records {disk : Disk} {segment generation count : Nat} {chunks : List Chunk}
    (tail : Tail disk segment generation chunks) (positive : 0 < count)
    (fewer : count < chunks.length) :
    (recordsOf (chunks.drop count)).length < (recordsOf chunks).length := by
  have both := tail.layout
  rw [← List.take_append_drop count chunks, layout_append] at both
  have some := layout_length_le _ both.1
  rw [List.length_take] at some
  rw [recordsOf_take_drop chunks count, List.length_append]
  omega

/-- What a walk leaves when it does not end in a refusal. -/
theorem readsAll_iff {disk : Disk} {first : Nat} {records : List WalRecord} {state : WalMetaState}
    {metaAbsent : Bool} {scan : Scan} (bounds : walkBounds disk.metaFile = some (state, metaAbsent))
    (walked : scanSegments disk metaAbsent state.next.segment
      (2 * (disk.segments.length + state.next.segment) + 8) 0 Scan.start = .ok scan) :
    ReadsAll disk first records ↔ Takes disk first records scan := by
  have result : kWalScan disk = .ok (state, metaAbsent, scan) := by
    simp only [kWalScan, bounds, walked]
  constructor
  · rintro ⟨other, absent, found, same, takes⟩
    rw [result] at same
    cases same
    exact takes
  · intro takes
    exact ⟨state, metaAbsent, scan, result, takes⟩

section
variable {disk : Disk} {released generation : Nat} {chunks : List Chunk}

/-- The walk of a store without metadata in use. -/
theorem Retained.reads_unbounded (retained : Retained disk released generation chunks)
    {state : WalMetaState} (bounds : walkBounds disk.metaFile = some (state, true)) :
    ReadsAll disk generation (recordsOf chunks) ↔ released < scanEmptyPrefixMaxUnusedSlot := by
  have present := retained.segments
  by_cases near : released < scanEmptyPrefixMaxUnusedSlot
  · obtain ⟨scan, walked, takes⟩ := @Tail.walk disk released generation chunks retained.toTail true state.next.segment
      (2 * (disk.segments.length + state.next.segment) + 8) 0 Scan.start
      (Nat.zero_le released) (fun number _ => retained.empty number) .start rfl
      (.inr (by simpa [emptyCeiling] using near)) (by simp) (by omega)
    rw [readsAll_iff bounds walked]
    exact ⟨fun _ => near, fun _ => takes⟩
  · have ended := @scanSegments_gives_up disk state.next.segment
      (2 * (disk.segments.length + state.next.segment) + 5)
      (fun number below => retained.empty number (by omega))
    rw [readsAll_iff bounds ended]
    constructor
    · intro takes
      have none : 0 = (recordsOf chunks).length := takes.count
      have some := layout_length_le chunks retained.layout
      have length := List.length_pos_of_ne_nil retained.some
      omega
    · exact fun below => absurd below near

/-- The walk of a store whose metadata names the write position. -/
theorem Retained.reads_bounded (retained : Retained disk released generation chunks)
    {state : WalMetaState} (bounds : walkBounds disk.metaFile = some (state, false))
    (position : state.next.segment + 1 = released + chunks.length ∨
      state.next.segment = released + chunks.length) :
    ReadsAll disk generation (recordsOf chunks) ↔
      released < scanEmptyPrefixMax ∨ state.next.segment ≤ released + scanTailSegments := by
  have ceiling : scanEmptyPrefixMax = 64 := rfl
  have tail : scanTailSegments = 8 := rfl
  have length := List.length_pos_of_ne_nil retained.some
  by_cases near : released < scanEmptyPrefixMax
  · obtain ⟨scan, walked, takes⟩ := @Tail.walk disk released generation chunks retained.toTail false state.next.segment
      (2 * (disk.segments.length + state.next.segment) + 8) 0 Scan.start
      (Nat.zero_le released) (fun number _ => retained.empty number) .start rfl
      (.inr (by simpa [emptyCeiling] using near)) (fun _ => position) (by omega)
    rw [readsAll_iff bounds walked]
    exact ⟨fun _ => .inl near, fun _ => takes⟩
  · obtain ⟨fuel, split⟩ : ∃ fuel, 2 * (disk.segments.length + state.next.segment) + 8 =
        fuel + 1 + scanEmptyPrefixMax := ⟨2 * (disk.segments.length + state.next.segment) - 57,
      by omega⟩
    have jumps := @scanSegments_jumps disk state.next.segment fuel
      (fun number below => retained.empty number (by omega)) (by omega)
    by_cases close : state.next.segment ≤ released + scanTailSegments
    · obtain ⟨scan, walked, takes⟩ := @Tail.walk disk released generation chunks retained.toTail false
        state.next.segment fuel _ _
        (show state.next.segment - scanTailSegments ≤ released by omega)
        (fun number _ => retained.empty number) (.jump .start) rfl (.inl rfl)
        (fun _ => position) (by omega)
      rw [readsAll_iff bounds (by rw [split, jumps]; exact walked)]
      exact ⟨fun _ => .inr close, fun _ => takes⟩
    · -- the jump lands behind the first retained segment
      obtain ⟨count, skipped⟩ : ∃ count, state.next.segment - scanTailSegments =
          released + count := ⟨state.next.segment - scanTailSegments - released, by omega⟩
      have later := retained.toTail.drop (show count < chunks.length by omega)
      obtain ⟨scan, walked, takes⟩ := @Tail.walk disk _ _ _ later false state.next.segment fuel _ _
        (Nat.le_refl _)
        (fun number low high => absurd high (by omega)) (.jump .start) rfl (.inl rfl)
        (fun _ => by rw [List.length_drop]; omega) (by rw [List.length_drop]; omega)
      rw [readsAll_iff bounds (by rw [split, jumps, skipped]; exact walked)]
      constructor
      · intro all
        have fewer := fewer_records retained.toTail (show 0 < count by omega) (by omega)
        have one := all.count
        have other := takes.count
        omega
      · rintro (below | reach)
        · exact absurd below near
        · exact absurd reach close

/-- A load reads every record of every retained segment exactly when the first of
them is within reach of the walk. -/
theorem retained_read_iff_within_reach (retained : Retained disk released generation chunks) :
    ReadsAll disk generation (recordsOf chunks) ↔ WithinReach disk released := by
  obtain ⟨state, metaAbsent, bounds, position⟩ := retained.bounds
  unfold WithinReach
  rw [bounds]
  cases metaAbsent with
  | false => exact retained.reads_bounded bounds (position rfl)
  | true => exact retained.reads_unbounded bounds

end

/-! ## Where retained stores come from -/

/-- A store that has lost no segment. -/
theorem Stored.retained {disk : Disk} {slot : Nat} {chunks : List Chunk}
    (stored : Stored disk slot chunks) (some : chunks ≠ []) : Retained disk 0 0 chunks := by
  have limit : u64Max < 256 ^ 8 := by decide
  have fits := stored.fits
  obtain ⟨named, inUse, names⟩ := stored.slot
  obtain ⟨-, -, -, -, next⟩ := names.used some
  refine ⟨⟨stored.layout, some, stored.writable, ?_, ?_, by omega⟩, by simp, ?_⟩
  · simpa using stored.behind
  · simpa using stored.beyond
  · refine ⟨{ named with slot }, decide (named.generation = 0), ?_, fun _ => by simpa using next⟩
    simp only [walkBounds, inUse.load]

/-- The cleanup keeps the segments from the given one on. -/
theorem Retained.cleanup {disk : Disk} {released generation keepSegment : Nat}
    {chunks : List Chunk} (retained : Retained disk released generation chunks)
    (low : released ≤ keepSegment) (high : keepSegment < released + chunks.length)
    (oldSnapshotIndex : Int) :
    Retained (kSnapshotWorkerCleanup disk keepSegment oldSnapshotIndex) keepSegment
      (generation + (recordsOf (chunks.take (keepSegment - released))).length)
      (chunks.drop (keepSegment - released)) := by
  obtain ⟨count, rfl⟩ : ∃ count, keepSegment = released + count := ⟨keepSegment - released, by omega⟩
  rw [Nat.add_sub_cancel_left]
  have later := retained.toTail.drop (show count < chunks.length by omega)
  have same : ∀ number, released + count ≤ number →
      (kSnapshotWorkerCleanup disk (released + count) oldSnapshotIndex).segment number =
        disk.segment number := by
    intro number kept
    rw [cleanup_segment, if_neg (by omega)]
  obtain ⟨state, metaAbsent, bounds, position⟩ := retained.bounds
  refine ⟨⟨layout_congr _ (fun number kept _ => same number kept) later.layout, later.some,
    later.writable, ?_, ?_, later.fits⟩, ?_, state, metaAbsent, bounds, ?_⟩
  · rw [same _ (by omega)]
    exact later.behind
  · intro number beyond
    rw [same _ (by omega)]
    exact later.beyond number beyond
  · intro number below
    rw [cleanup_segment, if_pos below]
  · intro present
    have named := position present
    rw [List.length_drop]
    omega

/-! ## A segment the walk jumps over -/

/-- The segments of groups of records, one group each. -/
def layOut : Nat → List (List WalRecord) → List (List UInt8)
  | _, [] => []
  | generation, records :: rest =>
    frames generation records :: layOut (generation + records.length) rest

/-- A disk whose first segments are gone. -/
def retainedDisk (released : Nat) (metaFile : MetaFile) (snapshot : Int → List UInt8)
    (groups : List (List WalRecord)) : Disk where
  segments := List.replicate released [] ++ layOut 0 groups
  metaFile
  snapshot

theorem layOut_length (generation : Nat) (groups : List (List WalRecord)) :
    (layOut generation groups).length = groups.length := by
  induction groups generalizing generation with
  | nil => rfl
  | cons records rest ih => simp [layOut, ih]

theorem layOut_layout {disk : Disk} (groups : List (List WalRecord)) : ∀ {front : List (List UInt8)}
    {generation : Nat}, disk.segments = front ++ layOut generation groups →
    (∀ records ∈ groups, records ≠ []) →
    Layout disk front.length generation (groups.map (fun records => (records, []))) := by
  induction groups with
  | nil => intro _ _ _ _; trivial
  | cons records rest ih =>
    intro front generation file some
    refine ⟨some records (by simp), ?_, .of_short (by decide) _, ?_⟩
    · simp [Disk.segment, file, layOut]
    · have next := @ih (front ++ [frames generation records]) (generation + records.length)
        (by rw [file, layOut, List.append_assoc]; rfl)
        (fun other member => some other (by simp [member]))
      simpa using next

theorem retainedDisk_retained {released : Nat} {metaFile : MetaFile}
    {snapshot : Int → List UInt8} {groups : List (List WalRecord)} (nonempty : groups ≠ [])
    (some : ∀ records ∈ groups, records ≠ [])
    (writable : ∀ records ∈ groups, ∀ record ∈ records, record.Writable)
    (fits : (groups.flatMap id).length < 256 ^ 8)
    (bounds : ∃ state metaAbsent, walkBounds metaFile = Option.some (state, metaAbsent) ∧
      (metaAbsent = false → state.next.segment + 1 = released + groups.length ∨
        state.next.segment = released + groups.length)) :
    Retained (retainedDisk released metaFile snapshot groups) released 0
      (groups.map (fun records => (records, []))) := by
  have records : recordsOf (groups.map (fun records => (records, ([] : List UInt8)))) =
      groups.flatMap id := by
    simp [recordsOf, List.flatMap_map]
  have layout := @layOut_layout (retainedDisk released metaFile snapshot groups) groups
    (List.replicate released []) 0 rfl some
  rw [List.length_replicate] at layout
  have beyond : ∀ number, released + groups.length ≤ number →
      (retainedDisk released metaFile snapshot groups).segment number = [] := by
    intro number high
    rw [Disk.segment, List.getD_eq_default]
    simp only [retainedDisk, List.length_append, List.length_replicate, layOut_length]
    exact high
  refine ⟨⟨layout, by simpa using nonempty, ?_, ?_, ?_, ?_⟩, ?_, ?_⟩
  · rw [records]
    intro record member
    obtain ⟨group, inside, here⟩ := List.mem_flatMap.mp member
    exact writable group inside record here
  · rw [beyond _ (by simp)]
    exact .of_short (by decide) _
  · intro number high
    apply beyond
    rw [List.length_map] at high
    omega
  · rw [records, Nat.zero_add]
    exact fits
  · intro number below
    simp only [Disk.segment, retainedDisk, List.getD_eq_getElem?_getD]
    rw [List.getElem?_append_left (by simpa using below), List.getElem?_replicate_of_lt below]
    rfl
  · rw [List.length_map]
    exact bounds

/-- A record without entries. -/
def plainRecord : WalRecord := ⟨1, 1, 0, 0, 0, [], [], [], []⟩

theorem plainRecord_writable : plainRecord.Writable := ⟨by decide, by decide, by decide⟩

/-- Metadata that names one plain record at the start of a segment. -/
def metaAt (generation segment : Nat) : MetaFile :=
  let size := walHeaderSize + (recordBytes plainRecord).length
  .slots (kWalMetaSlotEncode WalMetaState.zero)
    (kWalMetaSlotEncode ⟨0, generation, ⟨segment, 0⟩, size, ⟨segment, size⟩⟩)

/-- A disk with one plain record in each of the segments that are left. -/
def plainDisk (released kept : Nat) : Disk :=
  retainedDisk released (metaAt kept (released + kept - 1)) RecoveryFold.emptySnapshot
    (List.replicate kept [plainRecord])

/-- The metadata of a plain disk decodes and names its newest segment. -/
def PlainMeta (released kept : Nat) : Prop :=
  (walkBounds (plainDisk released kept).metaFile).map (fun found =>
    (found.1.next.segment + 1, found.2)) = some (released + kept, false)

instance (released kept : Nat) : Decidable (PlainMeta released kept) :=
  inferInstanceAs (Decidable (_ = _))

theorem PlainMeta.bounds {released kept : Nat} (plain : PlainMeta released kept) :
    ∃ state, walkBounds (plainDisk released kept).metaFile = some (state, false) ∧
      state.next.segment + 1 = released + kept := by
  obtain ⟨⟨state, metaAbsent⟩, found, named⟩ := Option.map_eq_some_iff.mp plain
  simp only [Prod.mk.injEq] at named
  obtain ⟨position, rfl⟩ := named
  exact ⟨state, found, position⟩

theorem plainDisk_retained {released kept : Nat} (some : 0 < kept) (few : kept < 256)
    (plain : PlainMeta released kept) :
    Retained (plainDisk released kept) released 0
      ((List.replicate kept [plainRecord]).map (fun records => (records, []))) := by
  obtain ⟨state, bounds, position⟩ := plain.bounds
  apply retainedDisk_retained
  · intro none
    rw [List.replicate_eq_nil_iff] at none
    omega
  · intro records member
    rw [List.eq_of_mem_replicate member]
    simp
  · intro records member record inside
    rw [List.eq_of_mem_replicate member] at inside
    rw [List.mem_singleton.mp inside]
    exact plainRecord_writable
  · have count : ((List.replicate kept [plainRecord]).flatMap id).length = kept := by
      rw [List.length_flatMap, List.map_replicate, List.sum_replicate_nat]
      simp
    rw [count]
    omega
  · refine ⟨state, false, bounds, fun _ => .inl ?_⟩
    rw [List.length_replicate]
    exact position

/-- Sixty-four segments are gone and ten are left. The jump lands on the second of
them. -/
theorem ten_retained_first_skipped :
    ∃ chunks, Retained (plainDisk 64 10) 64 0 chunks ∧
      ¬ ReadsAll (plainDisk 64 10) 0 (recordsOf chunks) := by
  have plain : PlainMeta 64 10 := by decide +kernel
  obtain ⟨state, bounds, position⟩ := plain.bounds
  have retained := plainDisk_retained (by omega) (by omega) plain
  refine ⟨_, retained, ?_⟩
  rw [retained.reads_bounded bounds (.inl (by simpa using position))]
  have ceiling : scanEmptyPrefixMax = 64 := rfl
  have tail : scanTailSegments = 8 := rfl
  omega

/-- Seventy segments are gone and three are left, and the walk reads all three. -/
theorem three_retained_read :
    ∃ chunks, Retained (plainDisk 70 3) 70 0 chunks ∧
      ReadsAll (plainDisk 70 3) 0 (recordsOf chunks) := by
  have plain : PlainMeta 70 3 := by decide +kernel
  obtain ⟨state, bounds, position⟩ := plain.bounds
  have retained := plainDisk_retained (by omega) (by omega) plain
  refine ⟨_, retained, (retained_read_iff_within_reach retained).mpr ?_⟩
  have tail : scanTailSegments = 8 := rfl
  unfold WithinReach
  rw [bounds]
  exact .inr (by omega)

end Kynovo.Wal.Retention
