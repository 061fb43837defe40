import Kynovo.Lib.FileBytes
import Kynovo.Wal.Record

/-! The files of the write-ahead log and the worker that appends to them. Every
record is framed by a header with its generation, size and checksum; a segment is
left when the next record does not fit. The metadata file has two slots, written
in turn, and names an acknowledged record and the position behind it. -/
namespace Kynovo.Wal.Append
open Kynovo.Lib.LittleEndian
open Kynovo.Lib.FileBytes
open Kynovo.Wal.Record

def walMagic : Nat := 0x314c574b
def walVersion : Nat := 1
def walHeaderSize : Nat := 24
def walMetaMagic : Nat := 0x314d574b
def walMetaVersion : Nat := 2
def walMetaFsyncEvery : Nat := 64
def u64Max : Nat := 0xffffffffffffffff

structure WalPos where
  segment : Nat
  offset : Nat
deriving DecidableEq, Repr

structure WalMetaState where
  slot : Nat
  generation : Nat
  record : WalPos
  recordSize : Nat
  next : WalPos
deriving DecidableEq, Repr

def WalMetaState.zero : WalMetaState where
  slot := 0
  generation := 0
  record := ⟨0, 0⟩
  recordSize := 0
  next := ⟨0, 0⟩

/-- The metadata file: not there, too short to hold both slots, or the bytes of
its two slots. The slots lie 4 KiB apart; the bytes between them are not read. -/
inductive MetaFile where
  | absent
  | short
  | slots (first second : List UInt8)
deriving DecidableEq, Repr

/-- The files below one base path. A segment that does not exist has no bytes;
so does a snapshot. -/
structure Disk where
  segments : List (List UInt8)
  metaFile : MetaFile
  snapshot : Int → List UInt8

def Disk.segment (disk : Disk) (number : Nat) : List UInt8 := disk.segments.getD number []

/-- The segment list with one segment replaced; segments on the way to it are
created empty. -/
def setSegment : List (List UInt8) → Nat → List UInt8 → List (List UInt8)
  | [], 0, bytes => [bytes]
  | [], number + 1, bytes => [] :: setSegment [] number bytes
  | _ :: rest, 0, bytes => bytes :: rest
  | segment :: rest, number + 1, bytes => segment :: setSegment rest number bytes

def Disk.write (disk : Disk) (position : WalPos) (bytes : List UInt8) : Disk :=
  { disk with
    segments := setSegment disk.segments position.segment
      (overlay (disk.segment position.segment) position.offset bytes) }

/-! ## Metadata slots -/

def slotFields (state : WalMetaState) : List UInt8 :=
  leBytes 4 walMetaMagic ++ (leBytes 4 walMetaVersion ++ (leBytes 8 state.generation ++
    (leBytes 8 state.record.segment ++ (leBytes 8 state.record.offset ++
      (leBytes 8 state.recordSize ++ (leBytes 8 state.next.segment ++
        leBytes 8 state.next.offset))))))

def kWalMetaSlotEncode (state : WalMetaState) : List UInt8 :=
  slotFields state ++ (leBytes 4 (kCrc32 (slotFields state)) ++ List.replicate 68 0)

/-- The unsigned field of `width` bytes at an offset. -/
def fieldAt (bytes : List UInt8) (offset width : Nat) : Nat := leNat ((bytes.drop offset).take width)

def kWalMetaSlotDecode (slot : List UInt8) : Option WalMetaState :=
  if fieldAt slot 0 4 ≠ walMetaMagic ∨ fieldAt slot 4 4 ≠ walMetaVersion then none
  else if kCrc32 (slot.take 56) ≠ fieldAt slot 56 4 then none
  else
    let state : WalMetaState := {
      slot := 0
      generation := fieldAt slot 8 8
      record := ⟨fieldAt slot 16 8, fieldAt slot 24 8⟩
      recordSize := fieldAt slot 32 8
      next := ⟨fieldAt slot 40 8, fieldAt slot 48 8⟩ }
    if state.generation = 0 then
      if state.record.segment ≠ 0 ∨ state.record.offset ≠ 0 ∨ state.recordSize ≠ 0 ∨
          state.next.segment ≠ 0 ∨ state.next.offset ≠ 0 then none
      else some state
    else if state.recordSize < walHeaderSize ∨ state.recordSize > stateMax + walHeaderSize then none
    else some state

/-- Positions are ordered by segment, then by offset. -/
def WalPos.before (a b : WalPos) : Bool :=
  decide (a.segment < b.segment ∨ a.segment = b.segment ∧ a.offset < b.offset)

/-- The three results of reading the metadata. -/
inductive MetaLoad where
  | damaged
  | absent
  | found (state : WalMetaState)
deriving DecidableEq, Repr

def kWalMetaLoad (file : MetaFile) : MetaLoad :=
  match file with
  | .absent => .absent
  | .short => .damaged
  | .slots first second =>
    match kWalMetaSlotDecode first, kWalMetaSlotDecode second with
    | none, none => .damaged
    | some a, none => .found { a with slot := 0 }
    | none, some b => .found { b with slot := 1 }
    | some a, some b =>
      if a.generation > b.generation ∨ a.generation = b.generation ∧ b.next.before a.next then
        .found { a with slot := 0 }
      else .found { b with slot := 1 }

def kWalMetaInit (disk : Disk) : Disk :=
  { disk with
    metaFile := .slots (kWalMetaSlotEncode WalMetaState.zero)
      (kWalMetaSlotEncode WalMetaState.zero) }

/-! ## The worker -/

structure WalWorker where
  generation : Nat
  next : WalPos
  metaSlot : Nat
  metaSinceSync : Nat
  metaSyncSegment : Nat
deriving DecidableEq, Repr

/-- A disk with the worker that appends to it. -/
structure Store where
  disk : Disk
  worker : WalWorker

/-- The worker of a freshly opened server, at the position recovery reports. -/
def openWorker (state : WalMetaState) : WalWorker where
  generation := state.generation
  next := state.next
  metaSlot := state.slot
  metaSinceSync := walMetaFsyncEvery
  metaSyncSegment := u64Max

def replaceSlot (file : MetaFile) (slot : Nat) (bytes : List UInt8) : MetaFile :=
  match file with
  | .slots first second => if slot = 0 then .slots bytes second else .slots first bytes
  | .absent => .short
  | .short => .short

/-- A slot reaches the disk only when it is synced; the position always reaches
the worker. -/
def kWalMetaStore (store : Store) (state : WalMetaState) (durable : Bool) : Store :=
  let worker := { store.worker with generation := state.generation, next := state.next }
  if durable then
    let nextSlot := if worker.metaSlot = 0 then 1 else 0
    { disk := { store.disk with
        metaFile := replaceSlot store.disk.metaFile nextSlot (kWalMetaSlotEncode state) }
      worker := { worker with metaSlot := nextSlot } }
  else { store with worker }

def walHeader (generation : Nat) (payload : List UInt8) : List UInt8 :=
  leBytes 4 walMagic ++ (leBytes 4 walVersion ++ (leBytes 8 generation ++
    (leBytes 4 payload.length ++ leBytes 4 (kCrc32 payload))))

/-- The bytes of a record on disk. -/
def frame (generation : Nat) (payload : List UInt8) : List UInt8 :=
  walHeader generation payload ++ payload

/-- A record goes to the next segment when it does not fit behind the last one;
a record larger than a segment gets one of its own. -/
def recordPosition (segmentSize : Nat) (next : WalPos) (recordSize : Nat) : WalPos :=
  if next.offset > 0 ∧ (recordSize > segmentSize ∨ next.offset > segmentSize - recordSize) then
    ⟨next.segment + 1, 0⟩
  else next

def nextPosition (segmentSize : Nat) (record : WalPos) (recordSize : Nat) : WalPos :=
  if recordSize ≥ segmentSize ∨ record.offset + recordSize ≥ segmentSize then
    ⟨record.segment + 1, 0⟩
  else ⟨record.segment, record.offset + recordSize⟩

/-- Append one record and sync it. The metadata slot follows when the segment
changed or enough records have passed. -/
def kWalAppendBundle (segmentSize : Nat) (store : Store) (payload : List UInt8) : Option Store :=
  if payload.isEmpty then none
  else if store.worker.generation = u64Max then none
  else
    let generation := store.worker.generation + 1
    let recordSize := walHeaderSize + payload.length
    let record := recordPosition segmentSize store.worker.next recordSize
    let disk := store.disk.write record (frame generation payload)
    let state : WalMetaState := {
      slot := 0
      generation
      record
      recordSize
      next := nextPosition segmentSize record recordSize }
    let sinceSync := store.worker.metaSinceSync + 1
    let durable := decide (record.segment ≠ store.worker.metaSyncSegment) ||
      decide (sinceSync ≥ walMetaFsyncEvery)
    let worker := { store.worker with
      metaSinceSync := if durable then 0 else sinceSync
      metaSyncSegment := if durable then record.segment else store.worker.metaSyncSegment }
    some (kWalMetaStore ⟨disk, worker⟩ state durable)

/-- A crash inside the append: the first `kept` bytes of the record reach its
position and nothing else does. -/
def tornAppend (segmentSize : Nat) (store : Store) (payload : List UInt8) (kept : Nat) : Disk :=
  if payload.isEmpty then store.disk
  else if store.worker.generation = u64Max then store.disk
  else
    let record := recordPosition segmentSize store.worker.next (walHeaderSize + payload.length)
    store.disk.write record ((frame (store.worker.generation + 1) payload).take kept)

end Kynovo.Wal.Append
