import Mathlib.Data.List.GetD
import Kynovo.Wal.Recovery

/-! What the segment scan reads from intact records. A segment is the frames of
its records followed by a tail that reads as a torn record; a walk over such
segments takes exactly their records and ends without refusing. -/
namespace Kynovo.Wal.ScanProofs
open Kynovo.Lib
open Kynovo.Lib.LittleEndian
open Kynovo.Lib.FileBytes
open Kynovo.Wal.Record
open Kynovo.Wal.Append
open Kynovo.Wal.Recovery

/-! ## Checksums and header fields -/

theorem crc32Table_lt (position : Nat) : crc32Table.getD position 0 < 2 ^ 32 := by
  have all : ∀ word ∈ crc32Table, word < 2 ^ 32 := by decide +kernel
  rcases Nat.lt_or_ge position crc32Table.length with inside | outside
  · rw [List.getD_eq_getElem _ _ inside]
    exact all _ (List.getElem_mem inside)
  · rw [List.getD_eq_default _ _ outside]
    decide

theorem kCrc32Update_lt (bytes : List UInt8) {reg : Nat} (bound : reg < 2 ^ 32) :
    kCrc32Update reg bytes < 2 ^ 32 := by
  induction bytes generalizing reg with
  | nil => exact bound
  | cons byte bytes ih =>
    refine ih (Nat.xor_lt_two_pow ?_ (crc32Table_lt _))
    exact lt_of_le_of_lt (Nat.shiftRight_le reg 8) bound

theorem kCrc32_lt (bytes : List UInt8) : kCrc32 bytes < 256 ^ 4 :=
  Nat.xor_lt_two_pow (n := 32) (kCrc32Update_lt bytes (by decide)) (by decide)

/-- A field behind another one. -/
theorem fieldAt_skip {before value offset : Nat} (passed : before ≤ offset) (rest : List UInt8)
    (width : Nat) :
    fieldAt (leBytes before value ++ rest) offset width = fieldAt rest (offset - before) width := by
  simp [fieldAt, List.drop_append, List.drop_eq_nil_of_le, passed]

/-- The field at the front. -/
theorem fieldAt_head {width value : Nat} (fits : value < 256 ^ width) (rest : List UInt8) :
    fieldAt (leBytes width value ++ rest) 0 width = value := by
  rw [fieldAt, List.drop_zero, List.take_left' (leBytes_length width value)]
  exact leNat_leBytes_of_lt fits

/-- The fields of a record header. -/
theorem walHeader_fields {generation : Nat} {payload : List UInt8}
    (fits : generation < 256 ^ 8) (small : payload.length ≤ stateMax) (rest : List UInt8) :
    fieldAt (walHeader generation payload ++ rest) 0 4 = walMagic ∧
      fieldAt (walHeader generation payload ++ rest) 4 4 = walVersion ∧
      fieldAt (walHeader generation payload ++ rest) 8 8 = generation ∧
      fieldAt (walHeader generation payload ++ rest) 16 4 = payload.length ∧
      fieldAt (walHeader generation payload ++ rest) 20 4 = kCrc32 payload := by
  have size : payload.length < 256 ^ 4 := by
    have bound : stateMax < 256 ^ 4 := by decide
    omega
  have magic : walMagic < 256 ^ 4 := by decide
  have version : walVersion < 256 ^ 4 := by decide
  simp (disch := decide) only [walHeader, List.append_assoc, fieldAt_skip]
  exact ⟨fieldAt_head magic _, fieldAt_head version _, fieldAt_head fits _, fieldAt_head size _,
    fieldAt_head (kCrc32_lt payload) _⟩

@[simp] theorem walHeader_length (generation : Nat) (payload : List UInt8) :
    (walHeader generation payload).length = walHeaderSize := by
  simp [walHeader, walHeaderSize]

@[simp] theorem frame_length (generation : Nat) (payload : List UInt8) :
    (frame generation payload).length = walHeaderSize + payload.length := by
  simp [frame]

theorem recordBytes_base {record : WalRecord} (writable : record.Writable) :
    24 ≤ (recordBytes record).length ∧
      payloadBase (recordBytes record) = record.lastIncludedIndex := by
  constructor
  · simp only [recordBytes, List.length_append, leBytesInt_length]
    omega
  · have split : recordBytes record = (leBytesInt 8 record.term ++ leBytesInt 4 record.votedFor) ++
        (leBytesInt 8 record.lastIncludedIndex ++ (leBytesInt 8 record.lastIncludedTerm ++
          (leBytesInt 8 record.snapshotSize ++ (kBufMask record.cfgOld ++ (kBufMask record.cfgNew ++
            (kBufMask record.cfgLearners ++ (leBytes 4 record.entries.length ++
              record.entries.flatMap entryBytes))))))) := by
      simp only [recordBytes, List.append_assoc]
    rw [payloadBase, split, List.drop_left' (by simp), List.take_left' (by simp)]
    exact leInt_leBytesInt writable.lastIncludedIndex

/-! ## One segment -/

/-- The bytes of records written one behind the other, starting above a
generation. -/
def frames : Nat → List WalRecord → List UInt8
  | _, [] => []
  | generation, record :: rest =>
    frame (generation + 1) (recordBytes record) ++ frames (generation + 1) rest

theorem frames_append (generation : Nat) (front back : List WalRecord) :
    frames generation (front ++ back) =
      frames generation front ++ frames (generation + front.length) back := by
  induction front generalizing generation with
  | nil => rfl
  | cons record front ih =>
    simp only [List.cons_append, frames, ih, List.append_assoc, List.length_cons]
    rw [Nat.add_assoc, Nat.add_comm 1]

/-- Bytes that the scan takes for a record whose write was interrupted: too few
for a header, or a header of the expected generation that announces more payload
than there is. -/
def TornTail (generation : Nat) (tail : List UInt8) : Prop :=
  tail.length < walHeaderSize ∨
    (fieldAt tail 0 4 = walMagic ∧ fieldAt tail 4 4 = walVersion ∧
      fieldAt tail 8 8 = generation ∧ 0 < fieldAt tail 16 4 ∧ fieldAt tail 16 4 ≤ stateMax ∧
      tail.length < walHeaderSize + fieldAt tail 16 4)

instance (generation : Nat) (tail : List UInt8) : Decidable (TornTail generation tail) :=
  inferInstanceAs (Decidable (_ ∨ _))

theorem TornTail.of_short {tail : List UInt8} (short : tail.length < walHeaderSize)
    (generation : Nat) : TornTail generation tail := Or.inl short

/-- The next generation continues what the scan has seen. -/
def Follows (cursor : Cursor) (scan : Scan) (generation : Nat) : Prop :=
  if cursor.held then generation = cursor.prevGeneration + 1
  else scan.prevSegmentGeneration = 0 ∨ generation = scan.prevSegmentGeneration + 1

theorem Follows.accepted {cursor : Cursor} {scan : Scan} {generation : Nat}
    (follows : Follows cursor scan generation) :
    ¬ (cursor.held = false ∧ scan.prevSegmentGeneration ≠ 0 ∧
        (generation ≤ scan.prevSegmentGeneration ∨ scan.prevSegmentGenerationKnown = true ∧
          generation ≠ scan.prevSegmentGeneration + 1)) ∧
      ¬ (cursor.held = true ∧ generation ≠ cursor.prevGeneration + 1) := by
  unfold Follows at follows
  cases held : cursor.held with
  | true =>
    simp only [held, if_true] at follows
    simp [follows]
  | false =>
    simp only [held, Bool.false_eq_true, if_false] at follows
    constructor
    · rintro ⟨-, known, wrong⟩
      rcases follows with none | next
      · exact known none
      · rcases wrong with early | ⟨-, other⟩
        · omega
        · exact other next
    · simp

/-- The scan after one intact record. -/
def taken (scan : Scan) (place : Place) (generation : Nat) (record : WalRecord) : Scan :=
  let noted := scan.noteBase place (recordBytes record)
  { noted with
    restore := decoded noted.restore record generation .termVote 0
    records := noted.records + 1
    newestGeneration := generation
    newest := place }

theorem take_recordBytes {record : WalRecord} (writable : record.Writable) (scan : Scan)
    (place : Place) (generation : Nat) :
    scan.take place generation (recordBytes record) = some (taken scan place generation record) := by
  simp [Scan.take, kStateDecodeRecord_recordBytes writable, taken]

/-- The step of the record loop on an intact record. -/
theorem scanSegment_record {record : WalRecord} (writable : record.Writable) {generation : Nat}
    (positive : 0 < generation) (fits : generation < 256 ^ 8) {segment fuel : Nat}
    {front back : List UInt8} {cursor : Cursor} {scan : Scan}
    (position : cursor.offset = front.length) (follows : Follows cursor scan generation) :
    scanSegment segment (front ++ (frame generation (recordBytes record) ++ back)) (fuel + 1)
        cursor scan =
      scanSegment segment (front ++ (frame generation (recordBytes record) ++ back)) fuel
        ⟨cursor.offset + (walHeaderSize + (recordBytes record).length), true, generation⟩
        (taken scan ⟨segment, cursor.offset, walHeaderSize + (recordBytes record).length⟩
          generation record) := by
  have header : readAt (front ++ (frame generation (recordBytes record) ++ back)) cursor.offset
      walHeaderSize = some (walHeader generation (recordBytes record)) := by
    have read := readAt_prefix (walHeader generation (recordBytes record))
      (recordBytes record ++ back)
    rw [walHeader_length] at read
    rw [position, readAt_append, frame, List.append_assoc, read]
  have payload : readAt (front ++ (frame generation (recordBytes record) ++ back))
      (cursor.offset + walHeaderSize) (recordBytes record).length =
        some (recordBytes record) := by
    have split : front ++ (frame generation (recordBytes record) ++ back) =
        (front ++ walHeader generation (recordBytes record)) ++ (recordBytes record ++ back) := by
      simp only [frame, List.append_assoc]
    have place : cursor.offset + walHeaderSize =
        (front ++ walHeader generation (recordBytes record)).length := by
      simp [position]
    rw [split, place, readAt_append, readAt_prefix]
  obtain ⟨magic, version, field8, field16, field20⟩ :=
    walHeader_fields fits writable.small ([] : List UInt8)
  rw [List.append_nil] at magic version field8 field16 field20
  have legal : ¬ ((recordBytes record).length = 0 ∨ (recordBytes record).length > stateMax ∨
      generation = 0) := by
    have long := (recordBytes_base writable).1
    have small := writable.small
    omega
  obtain ⟨crossing, inside⟩ := follows.accepted
  rw [scanSegment]
  simp only [header, magic, version, field8, field16, field20, payload, ne_eq, not_true_eq_false,
    or_self, if_false, legal, take_recordBytes writable]
  rw [if_neg crossing, if_neg inside]

/-- How a segment with this tail ends. -/
def tailEnd (tail : List UInt8) : SegmentEnd :=
  if tail = [] then .clean else if tail.length < walHeaderSize then .headerTorn else .payloadTorn

/-- The record loop stops quietly in front of a torn tail. -/
theorem scanSegment_tail {generation segment fuel : Nat} {front tail : List UInt8}
    {cursor : Cursor} {scan : Scan} (torn : TornTail generation tail) (positive : 0 < generation)
    (position : cursor.offset = front.length) (follows : Follows cursor scan generation) :
    scanSegment segment (front ++ tail) (fuel + 1) cursor scan =
      .ok (tailEnd tail, cursor, scan) := by
  rw [scanSegment, position, readAt_append]
  by_cases short : tail.length < walHeaderSize
  · rw [readAt_none (by omega), readAt_append]
    by_cases empty : tail = []
    · simp [empty, readAt, tailEnd]
    · have probe : readAt tail 0 1 = some ((tail.drop 0).take 1) := by
        have long := List.length_pos_of_ne_nil empty
        rw [readAt, if_pos (by omega)]
      simp [probe, tailEnd, empty, short]
  · obtain ⟨magic, version, generationField, sizePositive, sizeLegal, missing⟩ :=
      torn.resolve_left short
    have nonempty : tail ≠ [] := by
      rintro rfl
      exact short (by decide)
    have header : readAt tail 0 walHeaderSize = some (tail.take walHeaderSize) := by
      rw [readAt, if_pos (by omega), List.drop_zero]
    have field : ∀ offset width, offset + width ≤ walHeaderSize →
        fieldAt (tail.take walHeaderSize) offset width = fieldAt tail offset width := by
      intro offset width inside
      rw [fieldAt, fieldAt, List.drop_take, List.take_take, Nat.min_eq_left (by omega)]
    have payload : readAt (front ++ tail) (front.length + walHeaderSize) (fieldAt tail 16 4) =
        none := by
      rw [readAt_append_add]
      exact readAt_none missing
    obtain ⟨crossing, inside⟩ := follows.accepted
    simp only [header, field 0 4 (by decide), field 4 4 (by decide), field 8 8 (by decide),
      field 16 4 (by decide), magic, version, generationField, ne_eq, not_true_eq_false, or_self,
      if_false, payload]
    rw [if_neg (by omega), if_neg crossing, if_neg inside]
    simp [tailEnd, nonempty, short]

/-! ## What the scan knows -/

/-- The restored view after records, decoded one after the other. -/
def restoreOf (records : List WalRecord) : Restore :=
  records.foldl (fun restore record => decoded restore record (restore.generation + 1) .termVote 0)
    Restore.empty

theorem restoreOf_snoc (records : List WalRecord) (record : WalRecord) :
    restoreOf (records ++ [record]) =
      decoded (restoreOf records) record ((restoreOf records).generation + 1) .termVote 0 := by
  simp [restoreOf]

theorem restoreOf_generation (records : List WalRecord) :
    (restoreOf records).generation = records.length := by
  induction records using List.reverseRecOn with
  | nil => rfl
  | append_singleton front last ih =>
    rw [restoreOf_snoc, ih]
    simp [decoded, ih]

/-- The snapshot base of the last record. -/
def newestBase (records : List WalRecord) : Int :=
  (records.getLast?.map WalRecord.lastIncludedIndex).getD 0

@[simp] theorem newestBase_snoc (records : List WalRecord) (record : WalRecord) :
    newestBase (records ++ [record]) = record.lastIncludedIndex := by
  simp [newestBase]

/-- The first record that carries the newest base. -/
def baseRecord (records : List WalRecord) : Option WalRecord :=
  records.find? (fun record => record.lastIncludedIndex = newestBase records)

/-- Bases are never negative and never go back. -/
def BasesAdvance (records : List WalRecord) : Prop :=
  (∀ record ∈ records, 0 ≤ record.lastIncludedIndex) ∧
    records.Pairwise (fun a b => a.lastIncludedIndex ≤ b.lastIncludedIndex)

instance (records : List WalRecord) : Decidable (BasesAdvance records) :=
  inferInstanceAs (Decidable (_ ∧ _))

theorem BasesAdvance.front {front back : List WalRecord} (advance : BasesAdvance (front ++ back)) :
    BasesAdvance front :=
  ⟨fun record member => advance.1 record (List.mem_append_left back member),
    (List.pairwise_append.mp advance.2).1⟩

theorem BasesAdvance.le_newest {records : List WalRecord} (advance : BasesAdvance records)
    {record : WalRecord} (member : record ∈ records) :
    record.lastIncludedIndex ≤ newestBase records := by
  induction records using List.reverseRecOn with
  | nil => simp at member
  | append_singleton front last ih =>
    rw [newestBase_snoc]
    rcases List.mem_append.mp member with inFront | isLast
    · exact (List.pairwise_append.mp advance.2).2.2 record inFront last (by simp)
    · rw [List.mem_singleton.mp isLast]

theorem BasesAdvance.newest_nonneg {records : List WalRecord} (advance : BasesAdvance records) :
    0 ≤ newestBase records := by
  induction records using List.reverseRecOn with
  | nil => simp [newestBase]
  | append_singleton front last ih =>
    rw [newestBase_snoc]
    exact advance.1 last (by simp)

theorem BasesAdvance.newest_le {records : List WalRecord} {record : WalRecord}
    (advance : BasesAdvance (records ++ [record])) :
    newestBase records ≤ record.lastIncludedIndex := by
  rcases List.eq_nil_or_concat' records with rfl | ⟨front, last, rfl⟩
  · exact advance.1 record (by simp)
  · rw [newestBase_snoc]
    exact (List.pairwise_append.mp advance.2).2.2 last (by simp) record (by simp)

theorem baseRecord_same {records : List WalRecord} {record found : WalRecord}
    (same : record.lastIncludedIndex = newestBase records)
    (known : baseRecord records = some found) : baseRecord (records ++ [record]) = some found := by
  rw [baseRecord, newestBase_snoc, same, List.find?_append]
  simp only [baseRecord] at known
  simp [known]

theorem baseRecord_new {records : List WalRecord} {record : WalRecord}
    (advance : BasesAdvance (records ++ [record]))
    (other : record.lastIncludedIndex ≠ newestBase records) :
    baseRecord (records ++ [record]) = some record := by
  have none : records.find? (fun old => old.lastIncludedIndex = record.lastIncludedIndex) =
      none := by
    rw [List.find?_eq_none]
    intro old member equal
    have upper := advance.front.le_newest member
    have lower := advance.newest_le
    simp only [decide_eq_true_eq] at equal
    omega
  rw [baseRecord, newestBase_snoc, List.find?_append, none]
  simp

/-- A record lies intact at a place. -/
structure HoldsAt (disk : Disk) (place : Place) (record : WalRecord) : Prop where
  writable : record.Writable
  size : place.size = walHeaderSize + (recordBytes record).length
  payload : readAt (disk.segment place.segment) (place.offset + walHeaderSize)
    (recordBytes record).length = some (recordBytes record)

/-- The scan has read exactly these records. -/
structure Tracks (disk : Disk) (records : List WalRecord) (scan : Scan) : Prop where
  restore : scan.restore = restoreOf records
  count : scan.records = records.length
  generation : scan.newestGeneration = records.length
  base : scan.newestBase = newestBase records
  prevBase : scan.prevBase ≤ scan.newestBase
  baseRecord : 0 < scan.newestBase →
    ∃ record, baseRecord records = some record ∧ HoldsAt disk scan.baseRecord record

theorem Tracks.start (disk : Disk) : Tracks disk [] Scan.start where
  restore := rfl
  count := rfl
  generation := rfl
  base := rfl
  prevBase := le_refl _
  baseRecord := fun positive => absurd positive (by decide)

theorem taken_restore (scan : Scan) (place : Place) (generation : Nat) (record : WalRecord) :
    (taken scan place generation record).restore =
      decoded scan.restore record generation .termVote 0 := by
  unfold taken Scan.noteBase
  split <;> rfl

theorem taken_records (scan : Scan) (place : Place) (generation : Nat) (record : WalRecord) :
    (taken scan place generation record).records = scan.records + 1 := by
  unfold taken Scan.noteBase
  split <;> rfl

/-- What the base variables become: a new base makes this record the base
record, the base seen last keeps the one it had. -/
theorem taken_base {record : WalRecord} (writable : record.Writable) (scan : Scan) (place : Place)
    (generation : Nat) :
    (taken scan place generation record).newestBase = record.lastIncludedIndex ∧
      (scan.newestBase = record.lastIncludedIndex →
        (taken scan place generation record).prevBase = scan.prevBase ∧
          (taken scan place generation record).baseRecord = scan.baseRecord) ∧
      (scan.newestBase ≠ record.lastIncludedIndex →
        (taken scan place generation record).prevBase = scan.newestBase ∧
          (taken scan place generation record).baseRecord = place) := by
  obtain ⟨long, base⟩ := recordBytes_base writable
  unfold taken Scan.noteBase
  by_cases same : scan.newestBase = record.lastIncludedIndex
  · rw [if_neg (by simp [base, same])]
    exact ⟨same, fun _ => ⟨rfl, rfl⟩, fun other => absurd same other⟩
  · rw [if_pos ⟨long, by rw [base]; exact same⟩]
    dsimp only
    exact ⟨base, fun equal => absurd equal same, fun _ => ⟨rfl, rfl⟩⟩

/-- One more record: the step of the invariant. -/
theorem Tracks.step {disk : Disk} {records : List WalRecord} {record : WalRecord} {scan : Scan}
    {place : Place} (tracks : Tracks disk records scan)
    (advance : BasesAdvance (records ++ [record])) (holds : HoldsAt disk place record) :
    Tracks disk (records ++ [record]) (taken scan place (records.length + 1) record) := by
  obtain ⟨base, keeps, changes⟩ :=
    taken_base holds.writable scan place (records.length + 1)
  have upper := advance.newest_le
  have current := tracks.base
  have previous := tracks.prevBase
  refine ⟨?_, ?_, ?_, ?_, ?_, ?_⟩
  · rw [taken_restore, tracks.restore, restoreOf_snoc, restoreOf_generation]
  · rw [taken_records, tracks.count, List.length_append, List.length_singleton]
  · rw [List.length_append, List.length_singleton]
    rfl
  · rw [base, newestBase_snoc]
  · rw [base]
    by_cases same : scan.newestBase = record.lastIncludedIndex
    · rw [(keeps same).1]
      omega
    · rw [(changes same).1]
      omega
  · rw [base]
    intro positive
    by_cases same : scan.newestBase = record.lastIncludedIndex
    · obtain ⟨found, known, there⟩ := tracks.baseRecord (by omega)
      rw [(keeps same).2]
      exact ⟨found, baseRecord_same (by omega) known, there⟩
    · rw [(changes same).2]
      exact ⟨record, baseRecord_new advance (by omega), holds⟩

/-! ## The walk -/

/-- The newest record ends at a position. -/
def NewestEnds (scan : Scan) (position : WalPos) : Prop :=
  scan.newest.segment = position.segment ∧
    scan.newest.offset + scan.newest.size = position.offset

/-- A property of the records read so far that the walk carries on: every further
record of `all` keeps it, and so does leaving a segment. The first record has the
generation above `first`. -/
structure Carries (disk : Disk) (first : Nat) (all : List WalRecord)
    (Inv : List WalRecord → Scan → Prop) : Prop where
  step : ∀ {done rest : List WalRecord} {record : WalRecord} {scan : Scan} {place : Place},
    all = done ++ record :: rest → Inv done scan → HoldsAt disk place record →
    Inv (done ++ [record]) (taken scan place (first + done.length + 1) record)
  leave : ∀ {done : List WalRecord} {scan : Scan} (cursor : Cursor) (ended : SegmentEnd),
    Inv done scan → Inv done (scan.leaveSegment cursor ended)
  count : ∀ {done : List WalRecord} {scan : Scan}, Inv done scan → scan.records = done.length

section
variable {disk : Disk} {first : Nat} {all : List WalRecord} {Inv : List WalRecord → Scan → Prop}

/-- The record loop takes the records of a segment one after the other. The
induction is on the records that remain; `front` is what the loop has passed. -/
theorem scanSegment_frames (carries : Carries disk first all Inv) {segment : Nat}
    {tail : List UInt8} (remaining : List WalRecord) : ∀ {done later : List WalRecord}
    {front : List UInt8} {cursor : Cursor} {scan : Scan} {fuel : Nat},
    all = done ++ (remaining ++ later) →
    disk.segment segment = front ++ (frames (first + done.length) remaining ++ tail) →
    cursor.offset = front.length → Inv done scan →
    Follows cursor scan (first + done.length + 1) →
    (∀ record ∈ remaining, record.Writable) →
    first + (done ++ remaining).length < 256 ^ 8 →
    TornTail (first + (done ++ remaining).length + 1) tail → remaining.length < fuel →
    ∃ cursor' scan', scanSegment segment (disk.segment segment) fuel cursor scan =
        .ok (tailEnd tail, cursor', scan') ∧
      Inv (done ++ remaining) scan' ∧
      (remaining = [] → cursor' = cursor ∧ scan' = scan) ∧
      (remaining ≠ [] → cursor'.held = true ∧
        cursor'.prevGeneration = first + (done ++ remaining).length ∧
        NewestEnds scan' ⟨segment, front.length + (frames (first + done.length) remaining).length⟩) := by
  induction remaining with
  | nil =>
    intro done later front cursor scan fuel _ file position holds follows _ _ torn enough
    obtain ⟨fuel, rfl⟩ : ∃ less, fuel = less + 1 := ⟨fuel - 1, by simp at enough; omega⟩
    simp only [frames, List.nil_append, List.append_nil] at file torn
    refine ⟨cursor, scan, ?_, by simpa using holds, fun _ => ⟨rfl, rfl⟩,
      fun other => absurd rfl other⟩
    rw [file]
    exact scanSegment_tail torn (by omega) position follows
  | cons record rest ih =>
    intro done later front cursor scan fuel split_all file position holds follows writable fits torn
      enough
    obtain ⟨fuel, rfl⟩ : ∃ less, fuel = less + 1 := ⟨fuel - 1, by simp at enough; omega⟩
    have here : record.Writable := writable record (by simp)
    have split : disk.segment segment = front ++
        (frame (first + done.length + 1) (recordBytes record) ++
          (frames (first + done.length + 1) rest ++ tail)) := by
      rw [file, frames, List.append_assoc]
    have shift : done ++ record :: rest = (done ++ [record]) ++ rest := by simp
    rw [shift] at fits torn
    have step := @scanSegment_record record here (first + done.length + 1) (by omega)
      (by simp only [List.length_append, List.length_cons] at fits; omega) segment fuel front
      (frames (first + done.length + 1) rest ++ tail) cursor scan position follows
    rw [← split] at step
    have there : HoldsAt disk
        ⟨segment, cursor.offset, walHeaderSize + (recordBytes record).length⟩ record := by
      refine ⟨here, rfl, ?_⟩
      have before : disk.segment segment = (front ++ walHeader (first + done.length + 1)
          (recordBytes record)) ++ (recordBytes record ++
            (frames (first + done.length + 1) rest ++ tail)) := by
        rw [split, frame]
        simp only [List.append_assoc]
      have place : cursor.offset + walHeaderSize =
          (front ++ walHeader (first + done.length + 1) (recordBytes record)).length := by
        simp [position]
      simp only [before, place, readAt_append, readAt_prefix]
    have moved := carries.step split_all holds there
    have length : first + (done ++ [record]).length = first + done.length + 1 := by
      simp [Nat.add_assoc]
    obtain ⟨cursor', scan', scanned, carried, stays, moves⟩ := @ih (done ++ [record]) later
      (front ++ frame (first + done.length + 1) (recordBytes record))
      ⟨cursor.offset + (walHeaderSize + (recordBytes record).length), true, first + done.length + 1⟩
      (taken scan ⟨segment, cursor.offset, walHeaderSize + (recordBytes record).length⟩
        (first + done.length + 1) record) fuel (by simpa using split_all)
      (by rw [split, length, List.append_assoc]) (by simp [position]) moved
      (by simp [Follows, Nat.add_assoc]) (fun other member => writable other (by simp [member])) fits torn
      (by simp at enough; omega)
    refine ⟨cursor', scan', by rw [step, scanned], by rw [shift]; exact carried,
      fun empty => absurd empty (by simp), fun _ => ?_⟩
    rw [shift]
    by_cases last : rest = []
    · obtain ⟨rfl, rfl⟩ := stays last
      subst last
      refine ⟨rfl, by simp [Nat.add_assoc], rfl, ?_⟩
      simp only [taken, frames, List.append_nil, frame_length, position]
    · obtain ⟨held, generation, ends⟩ := moves last
      refine ⟨held, generation, ?_⟩
      rw [length] at ends
      simpa only [frames, List.length_append, frame_length, Nat.add_assoc] using ends

end

/-- The records of a segment and the bytes behind them. -/
abbrev Chunk := List WalRecord × List UInt8

/-- The records of chunks, in order. -/
def recordsOf (chunks : List Chunk) : List WalRecord := chunks.flatMap Prod.fst

/-- Segments from a number on hold these chunks, the first record of which has
the generation above the given one. -/
def Layout (disk : Disk) : Nat → Nat → List Chunk → Prop
  | _, _, [] => True
  | segment, generation, (records, tail) :: rest =>
    records ≠ [] ∧ disk.segment segment = frames generation records ++ tail ∧
      TornTail (generation + records.length + 1) tail ∧
      Layout disk (segment + 1) (generation + records.length) rest

/-- Where the last record of the chunks ends, or the given position when there
is none. -/
def layoutEnd : Nat → Nat → WalPos → List Chunk → WalPos
  | _, _, position, [] => position
  | segment, generation, _, (records, _) :: rest =>
    layoutEnd (segment + 1) (generation + records.length)
      ⟨segment, (frames generation records).length⟩ rest

theorem frames_ne_nil (generation : Nat) {records : List WalRecord} (some : records ≠ []) :
    frames generation records ≠ [] := by
  cases records with
  | nil => exact absurd rfl some
  | cons record rest =>
    apply List.ne_nil_of_length_pos
    simp only [frames, List.length_append, frame_length, walHeaderSize]
    omega

theorem length_le_frames (generation : Nat) (records : List WalRecord) :
    records.length ≤ (frames generation records).length := by
  induction records generalizing generation with
  | nil => simp
  | cons record records ih =>
    have inner := ih (generation + 1)
    simp only [frames, List.length_append, frame_length, List.length_cons, walHeaderSize]
    omega

theorem leaveSegment_tracks {disk : Disk} {records : List WalRecord} {scan : Scan}
    (tracks : Tracks disk records scan) (cursor : Cursor) (ended : SegmentEnd) :
    Tracks disk records (scan.leaveSegment cursor ended) ∧
      (scan.leaveSegment cursor ended).newest = scan.newest := by
  unfold Scan.leaveSegment
  split
  · exact ⟨⟨tracks.restore, tracks.count, tracks.generation, tracks.base, tracks.prevBase,
      tracks.baseRecord⟩, rfl⟩
  · exact ⟨tracks, rfl⟩

/-- How many leading segments without a byte the walk visits. -/
def emptyCeiling (metaAbsent : Bool) : Nat :=
  if metaAbsent then scanEmptyPrefixMaxUnusedSlot else scanEmptyPrefixMax

section
variable {disk : Disk} {first : Nat} {all : List WalRecord} {Inv : List WalRecord → Scan → Prop}

/-- Segments without a byte in front of the first record are passed. -/
theorem scanSegments_released {metaAbsent : Bool} {lastSegment fuel : Nat} {scan : Scan}
    (fresh : scan.records = 0) (count : Nat) : ∀ {segment : Nat},
    (∀ number, segment ≤ number → number < segment + count → disk.segment number = []) →
    (metaAbsent = false → segment + count ≤ lastSegment + 1) →
    (scan.jumpedToTail = true ∨ segment + count ≤ emptyCeiling metaAbsent) →
    scanSegments disk metaAbsent lastSegment (fuel + count) segment scan =
      scanSegments disk metaAbsent lastSegment fuel (segment + count) scan := by
  induction count with
  | zero => exact fun _ _ _ => rfl
  | succ count ih =>
    intro segment empty bound ceiling
    have here : disk.segment segment = [] := empty segment (Nat.le_refl _) (by omega)
    have shift : segment + (count + 1) = segment + 1 + count := by omega
    have inside : ¬ (lastSegment < segment ∧ metaAbsent = false) := by
      rintro ⟨beyond, found⟩
      have limit := bound found
      omega
    have below : ¬ (scan.records = 0 ∧ scan.jumpedToTail = false ∧ segment ≥
        (if metaAbsent then scanEmptyPrefixMaxUnusedSlot else scanEmptyPrefixMax)) := by
      rintro ⟨-, still, high⟩
      rcases ceiling with jumped | low
      · rw [jumped] at still
        cases still
      · unfold emptyCeiling at low
        omega
    rw [← Nat.add_assoc, scanSegments, if_neg inside, if_neg below]
    simp only [here, if_true, fresh, ne_eq, not_true_eq_false, if_false]
    rw [shift]
    refine ih (fun number low high => empty number (by omega) (by omega)) ?_ ?_
    · intro found
      have limit := bound found
      omega
    · rcases ceiling with jumped | low
      · exact .inl jumped
      · exact .inr (by omega)

/-- The walk over the segments of a layout takes all their records. What lies in
the segment behind the last one reads as torn, and nothing lies behind that. -/
theorem scanSegments_chunks (carries : Carries disk first all Inv) {metaAbsent : Bool}
    {lastSegment : Nat} (chunks : List Chunk) :
    ∀ {segment fuel : Nat} {done : List WalRecord} {scan : Scan} {position : WalPos},
    all = done ++ recordsOf chunks →
    Layout disk segment (first + done.length) chunks → Inv done scan →
    NewestEnds scan position →
    scan.prevSegmentGeneration = (if done = [] then 0 else first + done.length) →
    (done = [] → chunks ≠ [] ∧
      (scan.jumpedToTail = true ∨ segment < emptyCeiling metaAbsent)) →
    (∀ record ∈ recordsOf chunks, record.Writable) →
    first + (done ++ recordsOf chunks).length < 256 ^ 8 →
    (metaAbsent = false →
      lastSegment + 1 = segment + chunks.length ∨ lastSegment = segment + chunks.length) →
    TornTail (first + (done ++ recordsOf chunks).length + 1)
      (disk.segment (segment + chunks.length)) →
    (metaAbsent = true → disk.segment (segment + chunks.length + 1) = []) →
    chunks.length + 2 < fuel →
    ∃ scan', scanSegments disk metaAbsent lastSegment fuel segment scan = .ok scan' ∧
      Inv (done ++ recordsOf chunks) scan' ∧
      NewestEnds scan' (layoutEnd segment (first + done.length) position chunks) := by
  induction chunks with
  | nil =>
    intro segment fuel done scan position _ _ holds ends previous start _ _ bound behind beyond enough
    obtain ⟨fuel, rfl⟩ : ∃ less, fuel = less + 2 := ⟨fuel - 2, by simp at enough; omega⟩
    have some_done : done ≠ [] := fun none => (start none).1 rfl
    have found : scan.records ≠ 0 := by
      rw [carries.count holds]
      exact fun zero => some_done (List.length_eq_zero_iff.mp zero)
    simp only [recordsOf, List.flatMap_nil, List.append_nil, List.length_nil, Nat.add_zero,
      if_neg some_done] at *
    refine ⟨scan, ?_, holds, ends⟩
    rw [scanSegments]
    by_cases passed : lastSegment < segment ∧ metaAbsent = false
    · rw [if_pos passed]
    · rw [if_neg passed, if_neg (by simp [found])]
      by_cases empty : disk.segment segment = []
      · simp only [empty, if_true]
        rw [if_pos found]
      · have quiet := @scanSegment_tail (first + done.length + 1) segment
          (disk.segment segment).length [] (disk.segment segment) Cursor.start scan behind (by omega)
          rfl (by simp [Follows, Cursor.start, previous])
        rw [List.nil_append] at quiet
        have stays : scan.leaveSegment Cursor.start (tailEnd (disk.segment segment)) = scan := rfl
        simp only [if_neg empty, quiet, stays]
        rw [scanSegments]
        cases metaAbsent with
        | false =>
          have last := bound rfl
          rw [if_pos ⟨by omega, rfl⟩]
        | true =>
          rw [if_neg (by simp), if_neg (by simp [found])]
          simp only [beyond rfl, if_true]
          rw [if_pos found]
  | cons chunk rest ih =>
    obtain ⟨records, tail⟩ := chunk
    intro segment fuel done scan position split_all layout holds _ previous start writable fits
      bound behind beyond enough
    obtain ⟨fuel, rfl⟩ : ∃ less, fuel = less + 1 := ⟨fuel - 1, by simp at enough; omega⟩
    obtain ⟨some, file, torn, further⟩ := layout
    have every : recordsOf ((records, tail) :: rest) = records ++ recordsOf rest := rfl
    rw [every] at writable fits behind split_all
    have length : first + (done ++ records).length = first + done.length + records.length := by
      rw [List.length_append, Nat.add_assoc]
    have nonempty : disk.segment segment ≠ [] := by
      rw [file]
      simp [frames_ne_nil (first + done.length) some]
    have within : records.length < (disk.segment segment).length + 1 := by
      have long := length_le_frames (first + done.length) records
      rw [file, List.length_append]
      omega
    have follows : Follows Cursor.start scan (first + done.length + 1) := by
      by_cases none : done = []
      · simp [Follows, Cursor.start, previous, none]
      · simp [Follows, Cursor.start, previous, none]
    obtain ⟨cursor', scan', scanned, carried, -, moves⟩ := @scanSegment_frames disk first all Inv
      carries segment tail records done (recordsOf rest) [] Cursor.start scan
      ((disk.segment segment).length + 1) split_all (by rw [List.nil_append, file]) rfl holds follows
      (fun record member => writable record (by simp [member]))
      (by simp only [List.length_append] at fits ⊢; omega) (by rw [length]; exact torn) within
    obtain ⟨held, generation, ends⟩ := moves some
    have newest : (scan'.leaveSegment cursor' (tailEnd tail)).newest = scan'.newest := by
      simp [Scan.leaveSegment, held]
    have more : done ++ records ≠ [] := fun none => some (List.append_eq_nil_iff.mp none).2
    rw [← List.append_assoc] at fits behind split_all
    obtain ⟨final, walked, carriesAll, endsAll⟩ := @ih (segment + 1) fuel (done ++ records)
      (scan'.leaveSegment cursor' (tailEnd tail))
      ⟨segment, (frames (first + done.length) records).length⟩ split_all
      (by rw [length]; exact further) (carries.leave cursor' _ carried)
      (by
        unfold NewestEnds at ends ⊢
        rw [newest]
        simpa using ends)
      (by rw [if_neg more]; simp [Scan.leaveSegment, held, generation])
      (fun none => absurd none more)
      (fun record member => writable record (by simp [member])) fits
      (by
        intro present
        have last := bound present
        simp only [List.length_cons] at last
        omega)
      (by
        have shift : segment + 1 + rest.length = segment + ((records, tail) :: rest).length := by
          simp only [List.length_cons]
          omega
        rw [shift]
        exact behind)
      (by
        intro absent
        have shift : segment + 1 + rest.length + 1 =
            segment + ((records, tail) :: rest).length + 1 := by
          simp only [List.length_cons]
          omega
        rw [shift]
        exact beyond absent)
      (by simp at enough; omega)
    refine ⟨final, ?_, ?_, ?_⟩
    · have inside : ¬ (lastSegment < segment ∧ metaAbsent = false) := by
        rintro ⟨passed, present⟩
        have last := bound present
        simp only [List.length_cons] at last
        omega
      rw [scanSegments, if_neg inside, if_neg, if_neg nonempty, scanned]
      · exact walked
      · rintro ⟨zero, still, high⟩
        rw [carries.count holds] at zero
        obtain ⟨-, reached⟩ := start (List.length_eq_zero_iff.mp zero)
        rcases reached with jumped | low
        · rw [jumped] at still
          cases still
        · unfold emptyCeiling at low
          omega
    · rw [every, ← List.append_assoc]
      exact carriesAll
    · rw [layoutEnd, ← length]
      exact endsAll

end

theorem tracks_carries (disk : Disk) {all : List WalRecord} (advance : BasesAdvance all) :
    Carries disk 0 all (Tracks disk) where
  step := by
    intro done rest record scan place split tracks holds
    have front : BasesAdvance (done ++ [record]) := by
      rw [split, List.append_cons] at advance
      exact advance.front
    rw [Nat.zero_add]
    exact tracks.step front holds
  leave := fun cursor ended tracks => (leaveSegment_tracks tracks cursor ended).1
  count := fun tracks => tracks.count

/-- The walk over a store that has lost no segment and whose bases advance. -/
theorem scanSegments_layout {disk : Disk} {lastSegment fuel : Nat} {chunks : List Chunk}
    (layout : Layout disk 0 0 chunks) (some : chunks ≠ [])
    (writable : ∀ record ∈ recordsOf chunks, record.Writable)
    (advance : BasesAdvance (recordsOf chunks)) (fits : (recordsOf chunks).length < 256 ^ 8)
    (bound : lastSegment + 1 = chunks.length ∨ lastSegment = chunks.length)
    (behind : TornTail ((recordsOf chunks).length + 1) (disk.segment chunks.length))
    (enough : chunks.length + 2 < fuel) :
    ∃ scan, scanSegments disk false lastSegment fuel 0 Scan.start = .ok scan ∧
      Tracks disk (recordsOf chunks) scan ∧ NewestEnds scan (layoutEnd 0 0 ⟨0, 0⟩ chunks) := by
  have low : 0 < emptyCeiling false := by decide
  have walk := @scanSegments_chunks disk 0 (recordsOf chunks) (Tracks disk)
    (tracks_carries disk advance) false lastSegment chunks 0 fuel [] Scan.start ⟨0, 0⟩
    (by simp) (by simpa using layout) (Tracks.start disk) ⟨rfl, rfl⟩ rfl
    (fun _ => ⟨some, .inr low⟩) writable (by simpa using fits) (by simpa using bound)
    (by simpa using behind) (by simp) enough
  simpa using walk

end Kynovo.Wal.ScanProofs
