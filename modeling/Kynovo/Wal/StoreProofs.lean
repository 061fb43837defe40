import Kynovo.Wal.ScanProofs

/-! The invariant of a store: its segments are a layout of the appended records,
the worker stands behind the last one, and the metadata slot in use names an
acknowledged record of the last segment. Appending keeps it, and a load of such a
store finds exactly the appended records. -/
namespace Kynovo.Wal.StoreProofs
open Kynovo.Lib.LittleEndian
open Kynovo.Lib.FileBytes
open Kynovo.Wal.Record
open Kynovo.Wal.Append
open Kynovo.Wal.Recovery
open Kynovo.Wal.ScanProofs

/-! ## Files -/

theorem getD_setSegment (segments : List (List UInt8)) (number other : Nat) (bytes : List UInt8) :
    (setSegment segments number bytes).getD other [] =
      if other = number then bytes else segments.getD other [] := by
  induction segments generalizing number other with
  | nil =>
    induction number generalizing other with
    | zero => cases other <;> simp [setSegment]
    | succ number ih =>
      cases other with
      | zero => simp [setSegment]
      | succ other => simpa [setSegment] using ih other
  | cons segment rest ih =>
    cases number with
    | zero => cases other <;> simp [setSegment]
    | succ number =>
      cases other with
      | zero => simp [setSegment]
      | succ other => simpa [setSegment] using ih number other

theorem write_segment (disk : Disk) (position : WalPos) (bytes : List UInt8) (number : Nat) :
    (disk.write position bytes).segment number =
      if number = position.segment then
        overlay (disk.segment position.segment) position.offset bytes
      else disk.segment number := by
  simp only [Disk.write, Disk.segment, getD_setSegment]

/-! ## Slots -/

/-- The values of a slot fit their fields and pass its checks. -/
structure SlotLegal (state : WalMetaState) : Prop where
  generation : 0 < state.generation ∧ state.generation < 256 ^ 8
  recordSegment : state.record.segment < 256 ^ 8
  recordOffset : state.record.offset < 256 ^ 8
  recordSize : walHeaderSize ≤ state.recordSize ∧ state.recordSize ≤ stateMax + walHeaderSize
  nextSegment : state.next.segment < 256 ^ 8
  nextOffset : state.next.offset < 256 ^ 8

theorem slotFields_length (state : WalMetaState) : (slotFields state).length = 56 := by
  simp [slotFields]

/-- The fields of an encoded slot. -/
theorem slot_fields {state : WalMetaState} (generation : state.generation < 256 ^ 8)
    (recordSegment : state.record.segment < 256 ^ 8) (recordOffset : state.record.offset < 256 ^ 8)
    (recordSize : state.recordSize < 256 ^ 8) (nextSegment : state.next.segment < 256 ^ 8)
    (nextOffset : state.next.offset < 256 ^ 8) (rest : List UInt8) :
    fieldAt (slotFields state ++ rest) 0 4 = walMetaMagic ∧
      fieldAt (slotFields state ++ rest) 4 4 = walMetaVersion ∧
      fieldAt (slotFields state ++ rest) 8 8 = state.generation ∧
      fieldAt (slotFields state ++ rest) 16 8 = state.record.segment ∧
      fieldAt (slotFields state ++ rest) 24 8 = state.record.offset ∧
      fieldAt (slotFields state ++ rest) 32 8 = state.recordSize ∧
      fieldAt (slotFields state ++ rest) 40 8 = state.next.segment ∧
      fieldAt (slotFields state ++ rest) 48 8 = state.next.offset := by
  have magic : walMetaMagic < 256 ^ 4 := by decide
  have version : walMetaVersion < 256 ^ 4 := by decide
  simp (disch := decide) only [slotFields, List.append_assoc, fieldAt_skip]
  exact ⟨fieldAt_head magic _, fieldAt_head version _, fieldAt_head generation _,
    fieldAt_head recordSegment _, fieldAt_head recordOffset _, fieldAt_head recordSize _,
    fieldAt_head nextSegment _, fieldAt_head nextOffset _⟩

theorem slot_checksum (state : WalMetaState) :
    (kWalMetaSlotEncode state).take 56 = slotFields state ∧
      fieldAt (kWalMetaSlotEncode state) 56 4 = kCrc32 (slotFields state) := by
  constructor
  · exact List.take_left' (slotFields_length state)
  · simp (disch := decide) only [kWalMetaSlotEncode, slotFields, List.append_assoc, fieldAt_skip]
    exact fieldAt_head (kCrc32_lt _) _

/-- A written slot reads back. -/
theorem slot_decode {state : WalMetaState} (legal : SlotLegal state) :
    kWalMetaSlotDecode (kWalMetaSlotEncode state) = some { state with slot := 0 } := by
  obtain ⟨checked, stored⟩ := slot_checksum state
  have size : state.recordSize < 256 ^ 8 := by
    have bound : stateMax + walHeaderSize < 256 ^ 8 := by decide
    have upper := legal.recordSize.2
    omega
  obtain ⟨magic, version, generation, recordSegment, recordOffset, recordSize, nextSegment,
    nextOffset⟩ := slot_fields legal.generation.2 legal.recordSegment legal.recordOffset size
      legal.nextSegment legal.nextOffset
      (leBytes 4 (kCrc32 (slotFields state)) ++ List.replicate 68 0)
  rw [← kWalMetaSlotEncode] at magic version generation recordSegment recordOffset
  rw [← kWalMetaSlotEncode] at recordSize nextSegment nextOffset
  have used : state.generation ≠ 0 := by
    have positive := legal.generation.1
    omega
  have inside : ¬ (state.recordSize < walHeaderSize ∨
      state.recordSize > stateMax + walHeaderSize) := by
    have bounds := legal.recordSize
    omega
  simp only [kWalMetaSlotDecode, checked, stored, magic, version, generation, recordSegment,
    recordOffset, recordSize, nextSegment, nextOffset, ne_eq, not_true_eq_false, or_self, if_false]
  rw [if_neg used, if_neg inside]

theorem slot_decode_zero :
    kWalMetaSlotDecode (kWalMetaSlotEncode WalMetaState.zero) = some WalMetaState.zero := by
  decide +kernel

/-- The metadata file with the slot in use: it decodes to this state, and the other
slot is older. -/
structure SlotInUse (file : MetaFile) (slot : Nat) (state : WalMetaState) : Prop where
  two : slot = 0 ∨ slot = 1
  slots : ∃ first second older, file = .slots first second ∧
    kWalMetaSlotDecode (if slot = 0 then first else second) = some state ∧
    kWalMetaSlotDecode (if slot = 0 then second else first) = some older ∧
    (older.generation < state.generation ∨ slot = 1 ∧ older = state)

theorem SlotInUse.load {file : MetaFile} {slot : Nat} {state : WalMetaState}
    (inUse : SlotInUse file slot state) : kWalMetaLoad file = .found { state with slot } := by
  obtain ⟨first, second, older, rfl, current, other, age⟩ := inUse.slots
  rcases inUse.two with rfl | rfl
  · simp only [if_true] at current other
    have newer : older.generation < state.generation := by
      rcases age with newer | ⟨impossible, -⟩
      · exact newer
      · cases impossible
    simp only [kWalMetaLoad, current, other]
    rw [if_pos (Or.inl newer)]
  · simp only [Nat.one_ne_zero, if_false] at current other
    simp only [kWalMetaLoad, current, other]
    rw [if_neg]
    rintro (newer | ⟨equal, before⟩)
    · rcases age with age | ⟨-, same⟩
      · omega
      · rw [same] at newer
        omega
    · rcases age with age | ⟨-, same⟩
      · omega
      · simp [same, WalPos.before] at before

/-- Writing the other slot makes it the one in use. -/
theorem SlotInUse.replace {file : MetaFile} {slot : Nat} {state newer : WalMetaState}
    (inUse : SlotInUse file slot state) (legal : SlotLegal newer)
    (later : state.generation < newer.generation) :
    SlotInUse (replaceSlot file (if slot = 0 then 1 else 0) (kWalMetaSlotEncode newer))
      (if slot = 0 then 1 else 0) { newer with slot := 0 } := by
  obtain ⟨first, second, older, rfl, current, -, -⟩ := inUse.slots
  rcases inUse.two with rfl | rfl
  · simp only [if_true] at current ⊢
    exact ⟨Or.inr rfl, first, kWalMetaSlotEncode newer, state, rfl, slot_decode legal, current,
      Or.inl later⟩
  · simp only [Nat.one_ne_zero, if_false] at current ⊢
    exact ⟨Or.inl rfl, kWalMetaSlotEncode newer, second, state, rfl, slot_decode legal, current,
      Or.inl later⟩

/-! ## Layouts -/

theorem layout_congr {disk other : Disk} (chunks : List Chunk) : ∀ {segment generation : Nat},
    (∀ number, segment ≤ number → number < segment + chunks.length →
      other.segment number = disk.segment number) →
    Layout disk segment generation chunks → Layout other segment generation chunks := by
  induction chunks with
  | nil => intro _ _ _ _; trivial
  | cons chunk rest ih =>
    obtain ⟨records, tail⟩ := chunk
    intro segment generation same layout
    obtain ⟨some, file, torn, further⟩ := layout
    refine ⟨some, ?_, torn, ?_⟩
    · rw [same segment (le_refl _) (by simp)]
      exact file
    · refine ih (fun number low high => same number (by omega) ?_) further
      simp only [List.length_cons]
      omega

theorem layout_append {disk : Disk} (front : List Chunk) : ∀ {segment generation : Nat}
    {back : List Chunk}, Layout disk segment generation (front ++ back) ↔
      Layout disk segment generation front ∧
        Layout disk (segment + front.length) (generation + (recordsOf front).length) back := by
  induction front with
  | nil => intro segment generation back; simp [Layout, recordsOf]
  | cons chunk rest ih =>
    obtain ⟨records, tail⟩ := chunk
    intro segment generation back
    have count : (recordsOf ((records, tail) :: rest)).length =
        records.length + (recordsOf rest).length := by
      simp [recordsOf]
    simp only [List.cons_append, Layout, ih, count, List.length_cons]
    rw [show segment + 1 + rest.length = segment + (rest.length + 1) by omega,
      show generation + records.length + (recordsOf rest).length =
        generation + (records.length + (recordsOf rest).length) by omega]
    tauto

theorem layoutEnd_snoc (front : List Chunk) (records : List WalRecord) (tail : List UInt8) :
    ∀ (segment generation : Nat) (position : WalPos),
    layoutEnd segment generation position (front ++ [(records, tail)]) =
      ⟨segment + front.length, (frames (generation + (recordsOf front).length) records).length⟩ := by
  induction front with
  | nil => intro segment generation position; simp [layoutEnd, recordsOf]
  | cons chunk rest ih =>
    intro segment generation position
    have count : (recordsOf (chunk :: rest)).length =
        chunk.1.length + (recordsOf rest).length := by
      simp [recordsOf]
    rw [List.cons_append, layoutEnd, ih, count, List.length_cons]
    congr 1
    · omega
    · rw [Nat.add_assoc]

theorem layout_length_le {disk : Disk} (chunks : List Chunk) : ∀ {segment generation : Nat},
    Layout disk segment generation chunks → chunks.length ≤ (recordsOf chunks).length := by
  induction chunks with
  | nil => intro _ _ _; simp
  | cons chunk rest ih =>
    obtain ⟨records, tail⟩ := chunk
    intro segment generation layout
    obtain ⟨some, -, -, further⟩ := layout
    have more := ih further
    have positive := List.length_pos_of_ne_nil some
    simp only [recordsOf, List.flatMap_cons, List.length_append, List.length_cons] at more ⊢
    omega

/-! ## The invariant -/

/-- Where the last appended record ends. -/
def endOf (chunks : List Chunk) : WalPos := layoutEnd 0 0 ⟨0, 0⟩ chunks

/-- What the slot in use says about the log. -/
structure Names (state : WalMetaState) (chunks : List Chunk) : Prop where
  unused : chunks = [] → state = WalMetaState.zero
  used : chunks ≠ [] → 0 < state.generation ∧ 0 < state.recordSize ∧
    state.record.segment + 1 = chunks.length ∧
    state.record.offset + state.recordSize ≤ (endOf chunks).offset ∧
    (state.next.segment + 1 = chunks.length ∨ state.next.segment = chunks.length)
  known : state.generation ≤ (recordsOf chunks).length

/-- A disk holds the records of these chunks, with this slot in use, and nothing
else that a scan would take for a record. -/
structure Stored (disk : Disk) (slot : Nat) (chunks : List Chunk) : Prop where
  layout : Layout disk 0 0 chunks
  writable : ∀ record ∈ recordsOf chunks, record.Writable
  behind : TornTail ((recordsOf chunks).length + 1) (disk.segment chunks.length)
  beyond : ∀ number, chunks.length < number → disk.segment number = []
  fits : (recordsOf chunks).length ≤ u64Max
  slot : ∃ state, SlotInUse disk.metaFile slot state ∧ Names state chunks

/-- The worker of a store stands behind the last record. -/
structure Holds (segmentSize : Nat) (store : Store) (chunks : List Chunk) : Prop
    extends Stored store.disk store.worker.metaSlot chunks where
  generation : store.worker.generation = (recordsOf chunks).length
  position : ∀ size, 0 < size → recordPosition segmentSize store.worker.next size =
    recordPosition segmentSize (endOf chunks) size
  synced : store.worker.metaSyncSegment = u64Max ∨
    store.worker.metaSyncSegment + 1 = chunks.length

/-- The bytes that lie where a record of this size would be written. -/
def leftover (segmentSize : Nat) (store : Store) (size : Nat) : List UInt8 :=
  let record := recordPosition segmentSize store.worker.next size
  (store.disk.segment record.segment).drop record.offset

/-- A record goes behind the last one or to the start of the next segment. -/
theorem Holds.record_position {segmentSize : Nat} {store : Store} {chunks : List Chunk}
    (holds : Holds segmentSize store chunks) {size : Nat} (positive : 0 < size) :
    (∃ front records tail, chunks = front ++ [(records, tail)] ∧
        recordPosition segmentSize store.worker.next size =
          ⟨front.length, (frames (recordsOf front).length records).length⟩ ∧
        (frames (recordsOf front).length records).length + size ≤ segmentSize) ∨
      recordPosition segmentSize store.worker.next size = ⟨chunks.length, 0⟩ := by
  rw [holds.position size positive, endOf]
  rcases List.eq_nil_or_concat' chunks with rfl | ⟨front, ⟨records, tail⟩, rfl⟩
  · right
    simp [layoutEnd, recordPosition]
  · rw [layoutEnd_snoc, Nat.zero_add, Nat.zero_add]
    have some : records ≠ [] := by
      obtain ⟨-, last⟩ := (layout_append front).mp holds.layout
      exact last.1
    have long := List.length_pos_of_ne_nil (frames_ne_nil (recordsOf front).length some)
    unfold recordPosition
    split
    · right
      simp
    · left
      exact ⟨front, records, tail, rfl, rfl, by simp only at *; omega⟩

theorem next_position (segmentSize : Nat) (record : WalPos) {size other : Nat} (positive : 0 < size)
    (otherPositive : 0 < other) :
    recordPosition segmentSize (nextPosition segmentSize record size) other =
      recordPosition segmentSize ⟨record.segment, record.offset + size⟩ other := by
  unfold nextPosition
  split
  · unfold recordPosition
    rw [if_neg (by simp), if_pos (by simp only; omega)]
  · rfl

/-- Chunks with one more record, written at a position. -/
structure Grown (disk : Disk) (chunks : List Chunk) (record : WalRecord) (position : WalPos)
    (grown : List Chunk) : Prop where
  records : recordsOf grown = recordsOf chunks ++ [record]
  layout : Layout disk 0 0 grown
  behind : TornTail ((recordsOf grown).length + 1) (disk.segment grown.length)
  beyond : ∀ number, grown.length < number → disk.segment number = []
  segment : position.segment + 1 = grown.length
  ends : endOf grown =
    ⟨position.segment, position.offset + (walHeaderSize + (recordBytes record).length)⟩

/-- Writing a complete record over leftover bytes that it covers up to less than
a header grows the layout by that record. -/
theorem Holds.write {segmentSize : Nat} {store : Store} {chunks : List Chunk} {record : WalRecord}
    (holds : Holds segmentSize store chunks) {position : WalPos}
    (here : position = recordPosition segmentSize store.worker.next
      (walHeaderSize + (recordBytes record).length))
    (clear : ((store.disk.segment position.segment).drop position.offset).length <
      walHeaderSize + (recordBytes record).length + walHeaderSize)
    (later : ∀ number, position.segment < number →
      (store.disk.segment number).length < walHeaderSize) :
    ∃ grown, Grown (store.disk.write position
      (frame ((recordsOf chunks).length + 1) (recordBytes record))) chunks record position grown := by
  have header : walHeaderSize = 24 := rfl
  have size : 0 < walHeaderSize + (recordBytes record).length := by omega
  have written : (frame ((recordsOf chunks).length + 1) (recordBytes record)).length =
      walHeaderSize + (recordBytes record).length := frame_length _ _
  rcases holds.record_position size with ⟨front, records, tail, rfl, inside, -⟩ | next
  · -- The record goes behind the last one of the current segment.
    rw [inside] at here
    subst here
    obtain ⟨before, some, file, torn, -⟩ := (layout_append front).mp holds.layout
    simp only [Nat.zero_add] at file
    have count : (recordsOf (front ++ [(records, tail)])).length =
        (recordsOf front).length + records.length := by
      simp [recordsOf]
    have rest : (store.disk.segment front.length).drop
        (frames (recordsOf front).length records).length = tail := by
      rw [file, List.drop_left]
    rw [rest] at clear
    refine ⟨front ++ [(records ++ [record], tail.drop (walHeaderSize + (recordBytes record).length))],
      ?_, ?_, ?_, ?_, ?_, ?_⟩
    · simp [recordsOf]
    · refine (layout_append front).mpr ⟨layout_congr front (fun number _ high => ?_) before, ?_⟩
      · rw [write_segment, if_neg (by simp only; omega)]
      · refine ⟨by simp, ?_, ?_, trivial⟩
        · simp only [Nat.zero_add]
          rw [write_segment, if_pos rfl, file, overlay_at_end, written, frames_append, count]
          simp [frames]
        · exact TornTail.of_short (by simp only [List.length_drop]; omega) _
    · refine TornTail.of_short ?_ _
      rw [write_segment, if_neg (by simp)]
      exact later _ (by simp)
    · intro number high
      rw [write_segment, if_neg (by simp at high ⊢; omega)]
      exact holds.beyond number (by simpa using high)
    · simp
    · rw [endOf, layoutEnd_snoc, frames_append]
      simp [frames]
  · -- The record starts the next segment.
    rw [next] at here
    subst here
    refine ⟨chunks ++ [([record], (store.disk.segment chunks.length).drop
      (walHeaderSize + (recordBytes record).length))], ?_, ?_, ?_, ?_, ?_, ?_⟩
    · simp [recordsOf]
    · refine (layout_append chunks).mpr
        ⟨layout_congr chunks (fun number _ high => ?_) holds.layout, ?_⟩
      · rw [write_segment, if_neg (by simp only; omega)]
      · refine ⟨by simp, ?_, ?_, trivial⟩
        · simp only [Nat.zero_add]
          rw [write_segment, if_pos rfl]
          dsimp only
          rw [overlay_at_start, written, frames, frames, List.append_nil]
        · exact TornTail.of_short (by simp only [List.length_drop, List.drop_zero] at clear ⊢; omega) _
    · refine TornTail.of_short ?_ _
      rw [write_segment, if_neg (by simp)]
      exact later _ (by simp)
    · intro number high
      rw [write_segment, if_neg (by simp at high ⊢; omega)]
      exact holds.beyond number (by simp at high; omega)
    · simp
    · rw [endOf, layoutEnd_snoc]
      simp [frames]

/-- What a complete append may find: it covers the leftover bytes up to less than
a header, and no later segment holds a header. -/
structure Clear (segmentSize : Nat) (store : Store) (size : Nat) : Prop where
  covered : (leftover segmentSize store size).length < size + walHeaderSize
  later : ∀ number, (recordPosition segmentSize store.worker.next size).segment < number →
    (store.disk.segment number).length < walHeaderSize

/-- The slot of an appended record is legal. -/
theorem Holds.slot_legal {segmentSize : Nat} {store : Store} {chunks : List Chunk}
    (holds : Holds segmentSize store chunks) (bounded : segmentSize < 256 ^ 8)
    {record : WalRecord} (writable : record.Writable) (room : (recordsOf chunks).length < u64Max)
    {state : WalMetaState} (generation : state.generation = (recordsOf chunks).length + 1)
    (recordSize : state.recordSize = walHeaderSize + (recordBytes record).length)
    (position : state.record = recordPosition segmentSize store.worker.next state.recordSize)
    (next : state.next = nextPosition segmentSize state.record state.recordSize) :
    SlotLegal state := by
  have few := layout_length_le chunks holds.layout
  have limit : u64Max + 1 = 256 ^ 8 := by decide
  have small := writable.small
  have header : walHeaderSize = 24 := rfl
  have size : 0 < state.recordSize := by omega
  have place : state.record.segment ≤ chunks.length ∧ state.record.offset ≤ segmentSize := by
    rw [position]
    rcases holds.record_position size with ⟨front, records, tail, rfl, inside, room⟩ | next
    · rw [inside]
      simp only [List.length_append, List.length_singleton]
      omega
    · rw [next]
      exact ⟨le_refl _, Nat.zero_le _⟩
  have following : state.next.segment ≤ chunks.length + 1 ∧ state.next.offset ≤ segmentSize := by
    rw [next]
    unfold nextPosition
    split
    · exact ⟨by simp only; omega, Nat.zero_le _⟩
    · exact ⟨by simp only; omega, by simp only; omega⟩
  exact ⟨⟨by omega, by omega⟩, by omega, by omega, ⟨by omega, by omega⟩, by omega, by omega⟩

/-- A slot that names the record just appended. -/
theorem Grown.names {disk : Disk} {chunks grown : List Chunk} {record : WalRecord}
    {position : WalPos} (more : Grown disk chunks record position grown) {state : WalMetaState}
    {segmentSize : Nat} (generation : state.generation = (recordsOf chunks).length + 1)
    (recordSize : state.recordSize = walHeaderSize + (recordBytes record).length)
    (place : state.record = position)
    (next : state.next = nextPosition segmentSize state.record state.recordSize) :
    Names { state with slot := 0 } grown := by
  have header : walHeaderSize = 24 := rfl
  have segment := more.segment
  refine ⟨fun empty => ?_, fun _ => ⟨?_, ?_, ?_, ?_, ?_⟩, ?_⟩
  · rw [empty] at segment
    simp at segment
  · simp only
    omega
  · simp only
    omega
  · simpa only [place] using segment
  · simp only [place, recordSize, more.ends]
    exact le_refl _
  · simp only [next, place]
    unfold nextPosition
    split
    · right
      exact segment
    · left
      exact segment
  · simp only [generation, more.records, List.length_append, List.length_singleton]
    exact le_refl _

/-- A slot in use keeps naming the log when a record joins the same segment. -/
theorem Names.grow {disk : Disk} {chunks grown : List Chunk} {record : WalRecord}
    {position : WalPos} {state : WalMetaState} (names : Names state chunks)
    (more : Grown disk chunks record position grown) (same : grown.length = chunks.length)
    (reaches : (endOf chunks).offset ≤ position.offset) : Names state grown := by
  have segment := more.segment
  have some : chunks ≠ [] := by
    rintro rfl
    simp at same
    simp [same] at segment
  obtain ⟨generation, recordSize, place, ack, next⟩ := names.used some
  refine ⟨fun empty => ?_, fun _ => ⟨generation, recordSize, ?_, ?_, ?_⟩, ?_⟩
  · rw [empty] at segment
    simp at segment
  · rw [same]
    exact place
  · rw [more.ends]
    simp only
    omega
  · rw [same]
    exact next
  · have known := names.known
    rw [more.records, List.length_append]
    omega

/-- Appending over clear ground keeps the invariant and adds the record. -/
theorem Holds.append {segmentSize : Nat} {store after : Store} {chunks : List Chunk}
    {record : WalRecord} (holds : Holds segmentSize store chunks)
    (bounded : segmentSize < 256 ^ 8) (writable : record.Writable)
    (clear : Clear segmentSize store (walHeaderSize + (recordBytes record).length))
    (appended : kWalAppendBundle segmentSize store (recordBytes record) = some after) :
    ∃ grown, Holds segmentSize after grown ∧ recordsOf grown = recordsOf chunks ++ [record] := by
  have header : walHeaderSize = 24 := rfl
  have size : 0 < walHeaderSize + (recordBytes record).length := by omega
  have nonempty : (recordBytes record).isEmpty = false := by
    rw [List.isEmpty_eq_false_iff]
    exact List.ne_nil_of_length_pos (by have long := (recordBytes_base writable).1; omega)
  rw [kWalAppendBundle, nonempty] at appended
  by_cases full : store.worker.generation = u64Max
  · simp [full] at appended
  have counted := holds.generation
  have room : (recordsOf chunks).length < u64Max := by
    have fits := holds.fits
    omega
  rw [if_neg (by decide), if_neg full] at appended
  dsimp only at appended
  generalize place : recordPosition segmentSize store.worker.next
    (walHeaderSize + (recordBytes record).length) = position at appended
  obtain ⟨grown, more⟩ := holds.write place.symm
    (by simpa only [leftover, place] using clear.covered)
    (by simpa only [place] using clear.later)
  generalize entry : (⟨0, store.worker.generation + 1, position,
    walHeaderSize + (recordBytes record).length, nextPosition segmentSize position
      (walHeaderSize + (recordBytes record).length)⟩ : WalMetaState) = newer at appended
  have newerGeneration : newer.generation = (recordsOf chunks).length + 1 := by
    rw [← entry, ← counted]
  have newerSize : newer.recordSize = walHeaderSize + (recordBytes record).length := by rw [← entry]
  have newerRecord : newer.record = position := by rw [← entry]
  have newerNext : newer.next = nextPosition segmentSize newer.record newer.recordSize := by
    rw [← entry]
  have legal := holds.slot_legal bounded writable room newerGeneration newerSize
    (by rw [newerRecord, newerSize, place]) newerNext
  obtain ⟨state, inUse, names⟩ := holds.slot
  have all : ∀ other ∈ recordsOf grown, other.Writable := by
    intro other member
    rw [more.records] at member
    rcases List.mem_append.mp member with old | new
    · exact holds.writable other old
    · rw [List.mem_singleton.mp new]
      exact writable
  have count : (recordsOf grown).length = (recordsOf chunks).length + 1 := by
    rw [more.records, List.length_append, List.length_singleton]
  refine ⟨grown, ?_, more.records⟩
  rw [← counted] at more
  generalize durable : (decide (position.segment ≠ store.worker.metaSyncSegment) ||
    decide (store.worker.metaSinceSync + 1 ≥ walMetaFsyncEvery)) = synced at appended
  cases synced with
  | true =>
    simp only [kWalMetaStore, if_true, Option.some.injEq] at appended
    subst appended
    refine ⟨⟨?_, all, more.behind, more.beyond, by omega, _, inUse.replace legal ?_,
      more.names newerGeneration newerSize newerRecord newerNext⟩, ?_, ?_, ?_⟩
    · exact layout_congr grown (fun _ _ _ => by rfl) more.layout
    · have known := names.known
      omega
    · simp only
      omega
    · intro other positive
      rw [more.ends]
      simp only [newerNext, newerRecord, newerSize]
      exact next_position segmentSize position size positive
    · exact Or.inr more.segment
  | false =>
    simp only [kWalMetaStore, Bool.false_eq_true, if_false, Option.some.injEq] at appended
    subst appended
    simp only [Bool.or_eq_false_iff, decide_eq_false_iff_not, not_not] at durable
    have same : grown.length = chunks.length ∧ position = endOf chunks := by
      have few := layout_length_le chunks holds.layout
      have segment := more.segment
      rcases holds.record_position size with ⟨front, records, tail, rfl, inside, -⟩ | next
      · rw [place] at inside
        rw [inside] at segment ⊢
        refine ⟨by simpa using segment.symm, ?_⟩
        rw [endOf, layoutEnd_snoc, Nat.zero_add, Nat.zero_add]
      · rw [place] at next
        rw [next] at durable
        rcases holds.synced with opened | sync
        · have limit := durable.1
          simp only at limit
          omega
        · have limit := durable.1
          simp only at limit
          omega
    refine ⟨⟨?_, all, more.behind, more.beyond, by omega, state, inUse,
      names.grow more same.1 (by rw [same.2])⟩, ?_, ?_, ?_⟩
    · exact layout_congr grown (fun _ _ _ => by rfl) more.layout
    · simp only
      omega
    · intro other positive
      rw [more.ends]
      simp only [newerNext, newerRecord, newerSize]
      exact next_position segmentSize position size positive
    · rw [same.1]
      exact holds.synced

theorem metaStore_effect (store : Store) (state : WalMetaState) (durable : Bool) :
    (kWalMetaStore store state durable).disk.segments = store.disk.segments ∧
      (kWalMetaStore store state durable).worker.next = state.next ∧
      (kWalMetaStore store state durable).disk.snapshot = store.disk.snapshot := by
  cases durable <;> exact ⟨rfl, rfl, rfl⟩

/-- What an append does to the segments, the snapshots and the position. -/
theorem append_effect {segmentSize : Nat} {store after : Store} {payload : List UInt8}
    (appended : kWalAppendBundle segmentSize store payload = some after) :
    let position := recordPosition segmentSize store.worker.next (walHeaderSize + payload.length)
    (∀ number, after.disk.segment number = (store.disk.write position
        (frame (store.worker.generation + 1) payload)).segment number) ∧
      after.worker.next = nextPosition segmentSize position (walHeaderSize + payload.length) ∧
      after.disk.snapshot = store.disk.snapshot := by
  unfold kWalAppendBundle at appended
  split at appended
  · cases appended
  · split at appended
    · cases appended
    · simp only [Option.some.injEq] at appended
      subst appended
      refine ⟨fun number => ?_, (metaStore_effect _ _ _).2.1, (metaStore_effect _ _ _).2.2⟩
      rw [Disk.segment, (metaStore_effect _ _ _).1]
      rfl

/-! ## Loading -/

/-- The view a load settles on: the records in order, then the base record once
more for its snapshot header. -/
def settled (records : List WalRecord) : Restore :=
  if 0 < newestBase records then
    match baseRecord records with
    | some record => decoded (restoreOf records) record records.length .base 0
    | none => restoreOf records
  else restoreOf records

/-- The entries a load keeps. -/
def keptEntries (records : List WalRecord) : List PersistEntry :=
  (settled records).entries.filter (fun entry => entry.index > newestBase records)

theorem restoreOf_lastIncluded (records : List WalRecord) :
    (restoreOf records).lastIncludedIndex = 0 := by
  induction records using List.reverseRecOn with
  | nil => rfl
  | append_singleton front last ih =>
    rw [restoreOf_snoc]
    simp only [decoded, adoptHeader, adoptTermVote]
    split
    · exact ih
    · split <;> exact ih

theorem baseRecord_carries {records : List WalRecord} {record : WalRecord}
    (found : baseRecord records = some record) :
    record.lastIncludedIndex = newestBase records := by
  simpa using List.find?_some found

/-- The base a scan settles on and the view it reads there. -/
theorem readBase_settled {disk : Disk} {records : List WalRecord} {scan : Scan}
    (tracks : Tracks disk records scan) (advance : BasesAdvance records)
    (verified : kSnapshotVerifyFile disk (newestBase records) = true) :
    pickBase disk scan = .ok (newestBase records, scan.baseRecord) ∧
      Recovery.readBase disk scan (newestBase records) scan.baseRecord = .ok (settled records) ∧
      (settled records).lastIncludedIndex = newestBase records := by
  have base := tracks.base
  refine ⟨?_, ?_⟩
  · have ordered := tracks.prevBase
    rw [base] at ordered
    rw [pickBase]
    simp only [base, if_neg (not_lt.mpr ordered), verified, if_true]
  · by_cases positive : 0 < newestBase records
    · obtain ⟨record, found, there⟩ := tracks.baseRecord (by omega)
      have read := there.payload
      have size := there.size
      have present : scan.baseRecord.size ≠ 0 := by
        have header : walHeaderSize = 24 := rfl
        omega
      constructor
      · rw [Recovery.readBase, if_pos positive, if_neg present]
        simp only [size, Nat.add_sub_cancel_left, read, tracks.restore, tracks.generation,
          kStateDecodeRecord_recordBytes there.writable, settled, positive, if_true, found]
      · simp only [settled, positive, if_true, found, decoded, adoptHeader]
        exact baseRecord_carries found
    · have zero : newestBase records = 0 := by
        have nonneg := advance.newest_nonneg
        omega
      constructor
      · rw [Recovery.readBase, if_neg positive, tracks.restore, settled, if_neg positive]
      · rw [settled, if_neg positive, restoreOf_lastIncluded, zero]

/-- A load of stored records: it reports the settled view and the position behind
the last record, unless that view has a hole. -/
theorem Stored.load {disk : Disk} {slot : Nat} {chunks : List Chunk}
    (stored : Stored disk slot chunks) (some : chunks ≠ [])
    (advance : BasesAdvance (recordsOf chunks))
    (verified : kSnapshotVerifyFile disk (newestBase (recordsOf chunks)) = true) :
    ∃ state, state.slot = slot ∧ state.generation = (recordsOf chunks).length ∧
      state.next = endOf chunks ∧
      (settled (recordsOf chunks)).lastIncludedIndex = newestBase (recordsOf chunks) ∧
      kWalStateLoad disk =
        match firstHole (newestBase (recordsOf chunks) + 1) (keptEntries (recordsOf chunks)) with
        | Option.some index => .error (.logHole index)
        | none => .ok {
          restore := { settled (recordsOf chunks) with
            entries := keptEntries (recordsOf chunks)
            generation := (recordsOf chunks).length }
          state
          records := true } := by
  obtain ⟨named, inUse, names⟩ := stored.slot
  obtain ⟨generation, recordSize, place, ack, next⟩ := names.used some
  have limit : u64Max < 256 ^ 8 := by decide
  have fits := stored.fits
  obtain ⟨scan, walked, tracks, ends⟩ := scanSegments_layout stored.layout some stored.writable
    advance (by omega) next stored.behind
    (show chunks.length + 2 < 2 * (disk.segments.length + named.next.segment) + 8 by omega)
  have found : scan.records ≠ 0 := by
    rw [tracks.count]
    have few := layout_length_le chunks stored.layout
    have positive := List.length_pos_of_ne_nil some
    omega
  obtain ⟨picked, read, carries⟩ := readBase_settled tracks advance verified
  have reached : acknowledgedBeyond { named with slot } scan.newest = false := by
    obtain ⟨segment, offset⟩ := ends
    have lastOne : (endOf chunks).segment + 1 = chunks.length := by
      rcases List.eq_nil_or_concat' chunks with rfl | ⟨front, ⟨records, tail⟩, rfl⟩
      · exact absurd rfl some
      · rw [endOf, layoutEnd_snoc]
        simp
    rw [← endOf] at segment offset
    simp only [acknowledgedBeyond, decide_eq_false_iff_not]
    omega
  refine ⟨⟨slot, (recordsOf chunks).length, ⟨scan.newest.segment, scan.newest.offset⟩,
    scan.newest.size, ⟨scan.newest.segment, scan.newest.offset + scan.newest.size⟩⟩, rfl, rfl, ?_,
    carries, ?_⟩
  · obtain ⟨segment, offset⟩ := ends
    rw [← endOf] at segment offset
    simp only [segment, offset]
  · have unused : decide (named.generation = 0) = false := by
      rw [decide_eq_false_iff_not]
      omega
    simp only [kWalStateLoad, inUse.load, unused, walked, if_neg found, finishLoad, reached,
      Bool.false_eq_true, and_false, if_false, picked, read, carries, ne_eq, not_true_eq_false,
      reportLoad, tracks.generation]
    rfl

end Kynovo.Wal.StoreProofs
