import Kynovo.Wal.Append

/-! Recovery: the scan of the segments, the choice of the snapshot base and the
checks that precede a start. Every way to refuse is named after the message the
server prints. -/
namespace Kynovo.Wal.Recovery
open Kynovo.Lib.LittleEndian
open Kynovo.Lib.FileBytes
open Kynovo.Wal.Record
open Kynovo.Wal.Append

def scanEmptyPrefixMax : Nat := 64
def scanEmptyPrefixMaxUnusedSlot : Nat := 2
def scanTailSegments : Nat := 8

/-- Why recovery refuses to start. `scanUnfinished` stands for a scan that ran
out of steps, which a finite disk does not allow. -/
inductive Refusal where
  | metadataUndecodable
  | magicMismatch (segment offset : Nat)
  | illegalHeader (segment offset : Nat)
  | segmentGeneration (segment generation : Nat)
  | generationJump (segment generation : Nat)
  | crcMismatch (segment offset : Nat)
  | recordUndecodable (segment offset : Nat)
  | acknowledgedMissing
  | noUsableSnapshot (base : Int)
  | noRecordCarriesBase (base : Int)
  | baseMismatch (base : Int)
  | logHole (index : Int)
  | scanUnfinished
deriving DecidableEq, Repr

/-- Where a record lies. -/
structure Place where
  segment : Nat
  offset : Nat
  size : Nat
deriving DecidableEq, Repr

def Place.zero : Place := ⟨0, 0, 0⟩

/-- The variables of the scan that live across segments. -/
structure Scan where
  restore : Restore
  records : Nat
  newestGeneration : Nat
  newest : Place
  newestBase : Int
  prevBase : Int
  /-- The newest record read. -/
  baseNewest : Place
  /-- Where the previous distinct base was last carried. -/
  baseBefore : Place
  /-- The first record that carried the newest base. -/
  baseRecord : Place
  prevSegmentGeneration : Nat
  prevSegmentGenerationKnown : Bool
  jumpedToTail : Bool
deriving DecidableEq, Repr

def Scan.start : Scan where
  restore := Restore.empty
  records := 0
  newestGeneration := 0
  newest := Place.zero
  newestBase := 0
  prevBase := 0
  baseNewest := Place.zero
  baseBefore := Place.zero
  baseRecord := Place.zero
  prevSegmentGeneration := 0
  prevSegmentGenerationKnown := false
  jumpedToTail := false

/-- How a segment ended. -/
inductive SegmentEnd where
  | clean
  | headerTorn
  | payloadTorn
deriving DecidableEq, Repr

/-- The variables of the record loop inside one segment. -/
structure Cursor where
  offset : Nat
  held : Bool
  prevGeneration : Nat
deriving DecidableEq, Repr

def Cursor.start : Cursor := ⟨0, false, 0⟩

/-- The snapshot base a payload carries. -/
def payloadBase (payload : List UInt8) : Int := leInt ((payload.drop 12).take 8)

/-- Remember where the base of this record is; a base that differs from the one
before makes this record the base record. -/
def Scan.noteBase (scan : Scan) (place : Place) (payload : List UInt8) : Scan :=
  if payload.length ≥ 24 ∧ scan.newestBase ≠ payloadBase payload then
    { scan with
      prevBase := scan.newestBase
      baseBefore := scan.baseNewest
      newestBase := payloadBase payload
      baseRecord := place
      baseNewest := place }
  else { scan with baseNewest := place }

/-- Account for one intact record. -/
def Scan.take (scan : Scan) (place : Place) (generation : Nat) (payload : List UInt8) :
    Option Scan := do
  let noted := scan.noteBase place payload
  let restore ← kStateDecodeRecord noted.restore payload generation .termVote 0
  return { noted with
    restore
    records := noted.records + 1
    newestGeneration := generation
    newest := place }

/-- The record loop of one segment. -/
def scanSegment (segment : Nat) (file : List UInt8) :
    Nat → Cursor → Scan → Except Refusal (SegmentEnd × Cursor × Scan)
  | 0, _, _ => .error .scanUnfinished
  | fuel + 1, cursor, scan =>
    match readAt file cursor.offset walHeaderSize with
    | none =>
      match readAt file cursor.offset 1 with
      | none => .ok (.clean, cursor, scan)
      | some _ => .ok (.headerTorn, cursor, scan)
    | some header =>
      if fieldAt header 0 4 ≠ walMagic ∨ fieldAt header 4 4 ≠ walVersion then
        .error (.magicMismatch segment cursor.offset)
      else
        let payloadSize := fieldAt header 16 4
        let generation := fieldAt header 8 8
        if payloadSize = 0 ∨ payloadSize > stateMax ∨ generation = 0 then
          .error (.illegalHeader segment cursor.offset)
        else if cursor.held = false ∧ scan.prevSegmentGeneration ≠ 0 ∧
            (generation ≤ scan.prevSegmentGeneration ∨
              scan.prevSegmentGenerationKnown = true ∧
                generation ≠ scan.prevSegmentGeneration + 1) then
          .error (.segmentGeneration segment generation)
        else if cursor.held = true ∧ generation ≠ cursor.prevGeneration + 1 then
          .error (.generationJump segment generation)
        else
          match readAt file (cursor.offset + walHeaderSize) payloadSize with
          | none => .ok (.payloadTorn, cursor, scan)
          | some payload =>
            if kCrc32 payload ≠ fieldAt header 20 4 then
              .error (.crcMismatch segment cursor.offset)
            else
              let size := walHeaderSize + payloadSize
              match scan.take ⟨segment, cursor.offset, size⟩ generation payload with
              | none => .error (.recordUndecodable segment cursor.offset)
              | some scan =>
                scanSegment segment file fuel ⟨cursor.offset + size, true, generation⟩ scan

/-- What a segment leaves for the check of the next one. -/
def Scan.leaveSegment (scan : Scan) (cursor : Cursor) (ended : SegmentEnd) : Scan :=
  if cursor.held then
    { scan with
      prevSegmentGeneration := cursor.prevGeneration
      prevSegmentGenerationKnown := decide (ended ≠ .headerTorn) }
  else scan

/-- The walk over the segments. Leading empty segments are skipped up to a
ceiling; behind a record, an empty segment ends the walk. -/
def scanSegments (disk : Disk) (metaAbsent : Bool) (lastSegment : Nat) :
    Nat → Nat → Scan → Except Refusal Scan
  | 0, _, _ => .error .scanUnfinished
  | fuel + 1, segment, scan =>
    if lastSegment < segment ∧ metaAbsent = false then .ok scan
    else if scan.records = 0 ∧ scan.jumpedToTail = false ∧ segment ≥
        (if metaAbsent then scanEmptyPrefixMaxUnusedSlot else scanEmptyPrefixMax) then
      if metaAbsent then .ok scan
      else
        let target := if lastSegment > scanTailSegments + 1 then
          lastSegment - scanTailSegments - 1 else 0
        scanSegments disk metaAbsent lastSegment fuel (target + 1)
          { scan with jumpedToTail := true }
    else
      let file := disk.segment segment
      if file = [] then
        if scan.records ≠ 0 then .ok scan
        else scanSegments disk metaAbsent lastSegment fuel (segment + 1) scan
      else
        match scanSegment segment file (file.length + 1) Cursor.start scan with
        | .error refusal => .error refusal
        | .ok (ended, cursor, scan) =>
          scanSegments disk metaAbsent lastSegment fuel (segment + 1)
            (scan.leaveSegment cursor ended)

/-- A snapshot file ends with the checksum of what precedes it. A base of zero
needs none. -/
def kSnapshotVerifyFile (disk : Disk) (index : Int) : Bool :=
  if index ≤ 0 then true
  else
    let file := disk.snapshot index
    if file.length < 4 then false
    else kCrc32 (file.take (file.length - 4)) == leNat (file.drop (file.length - 4))

/-- The index of the first entry that does not continue the log. -/
def firstHole : Int → List PersistEntry → Option Int
  | _, [] => none
  | want, entry :: rest => if entry.index ≠ want then some entry.index else firstHole (want + 1) rest

/-- What a successful load reports: the restored view, the position to continue
at and whether any record was found. -/
structure Loaded where
  restore : Restore
  state : WalMetaState
  records : Bool
deriving DecidableEq, Repr

/-- Decode the base record once more for its snapshot header. -/
def readBase (disk : Disk) (scan : Scan) (base : Int) (place : Place) : Except Refusal Restore :=
  if base > 0 then
    if place.size = 0 then .error (.noRecordCarriesBase base)
    else
      match readAt (disk.segment place.segment) (place.offset + walHeaderSize)
          (place.size - walHeaderSize) with
      | none => .error (.recordUndecodable place.segment place.offset)
      | some payload =>
        match kStateDecodeRecord scan.restore payload scan.newestGeneration .base 0 with
        | none => .error (.recordUndecodable place.segment place.offset)
        | some restore => .ok restore
  else .ok scan.restore

/-- The base in use and the record it is read from: the newest base when its
snapshot is usable, else the one before. -/
def pickBase (disk : Disk) (scan : Scan) : Except Refusal (Int × Place) :=
  let base := if scan.newestBase < scan.prevBase then scan.prevBase else scan.newestBase
  if kSnapshotVerifyFile disk base then .ok (base, scan.baseRecord)
  else if base > 0 ∧ scan.prevBase > 0 ∧ kSnapshotVerifyFile disk scan.prevBase then
    .ok (scan.prevBase, scan.baseBefore)
  else if base > 0 then .error (.noUsableSnapshot base)
  else .ok (base, scan.baseRecord)

/-- The metadata names a record behind the end of the log. -/
def acknowledgedBeyond (state : WalMetaState) (newest : Place) : Bool :=
  decide (newest.segment < state.record.segment ∨ newest.segment = state.record.segment ∧
    newest.offset + newest.size < state.record.offset + state.recordSize)

/-- The report of a load whose base and view are settled: entries the snapshot
covers are dropped, and the rest must continue it without a hole. -/
def reportLoad (state : WalMetaState) (scan : Scan) (base : Int) (restore : Restore) :
    Except Refusal Loaded :=
  let kept := restore.entries.filter (fun entry => entry.index > base)
  match firstHole (base + 1) kept with
  | some index => .error (.logHole index)
  | none => .ok {
      restore := { restore with entries := kept, generation := scan.newestGeneration }
      state := {
        slot := state.slot
        generation := scan.newestGeneration
        record := ⟨scan.newest.segment, scan.newest.offset⟩
        recordSize := scan.newest.size
        next := ⟨scan.newest.segment, scan.newest.offset + scan.newest.size⟩ }
      records := true }

/-- The steps behind the scan, when it found records. -/
def finishLoad (disk : Disk) (metaAbsent : Bool) (state : WalMetaState) (scan : Scan) :
    Except Refusal Loaded :=
  if metaAbsent = false ∧ state.recordSize > 0 ∧ acknowledgedBeyond state scan.newest then
    .error .acknowledgedMissing
  else
    match pickBase disk scan with
    | .error refusal => .error refusal
    | .ok (base, place) =>
      match readBase disk scan base place with
      | .error refusal => .error refusal
      | .ok restore =>
        if restore.lastIncludedIndex ≠ base then .error (.baseMismatch base)
        else reportLoad state scan base restore

/-- Load the state of a store. Metadata that names no record leaves the end of
the walk to the segments. The walk visits each segment at most once, and once more
when it jumps to the tail. -/
def kWalStateLoad (disk : Disk) : Except Refusal Loaded :=
  let load (state : WalMetaState) (metaAbsent : Bool) : Except Refusal Loaded :=
    let fuel := 2 * (disk.segments.length + state.next.segment) + 8
    match scanSegments disk metaAbsent state.next.segment fuel 0 Scan.start with
    | .error refusal => .error refusal
    | .ok scan =>
      if scan.records = 0 then
        if metaAbsent = false ∧ state.recordSize > 0 then .error .acknowledgedMissing
        else .ok { restore := scan.restore, state, records := false }
      else finishLoad disk metaAbsent state scan
  match kWalMetaLoad disk.metaFile with
  | .damaged => .error .metadataUndecodable
  | .absent => load WalMetaState.zero true
  | .found state => load state (decide (state.generation = 0))

/-- Opening a server: load the state and start the worker at the reported
position. A store without metadata and records gets its metadata first. -/
def kServerOpen (disk : Disk) : Except Refusal (Store × Loaded) :=
  match kWalStateLoad disk with
  | .error refusal => .error refusal
  | .ok loaded =>
    if disk.metaFile = .absent ∧ loaded.records = false then
      match kWalMetaLoad (kWalMetaInit disk).metaFile with
      | .found state => .ok (⟨kWalMetaInit disk, openWorker state⟩, loaded)
      | _ => .error .metadataUndecodable
    else .ok (⟨disk, openWorker loaded.state⟩, loaded)

/-- A base path with nothing below it but snapshots. -/
def emptyDisk (snapshot : Int → List UInt8) : Disk where
  segments := []
  metaFile := .absent
  snapshot := snapshot

end Kynovo.Wal.Recovery
