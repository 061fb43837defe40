import Mathlib.Data.List.Basic
import Mathlib.Tactic.MkIffOfInductiveProp
import Kynovo.Lib.LittleEndian
import Kynovo.Lib.IndexedLog

/-! The payload of one write-ahead-log record: how a persist view is serialized
and how recovery decodes it into the restored view. Integers carry the signed
values of the C fields; `Representable` says that a value fits its C type. -/
namespace Kynovo.Wal.Record
open Kynovo.Lib.LittleEndian
open Kynovo.Lib

def maxNodes : Nat := 16
def stateMax : Nat := 268435456

/-- The table of the reflected CRC-32 polynomial. -/
def crc32Table : List Nat :=
  [
    0x00000000, 0x77073096, 0xee0e612c, 0x990951ba, 0x076dc419, 0x706af48f, 0xe963a535, 0x9e6495a3,
    0x0edb8832, 0x79dcb8a4, 0xe0d5e91e, 0x97d2d988, 0x09b64c2b, 0x7eb17cbd, 0xe7b82d07, 0x90bf1d91,
    0x1db71064, 0x6ab020f2, 0xf3b97148, 0x84be41de, 0x1adad47d, 0x6ddde4eb, 0xf4d4b551, 0x83d385c7,
    0x136c9856, 0x646ba8c0, 0xfd62f97a, 0x8a65c9ec, 0x14015c4f, 0x63066cd9, 0xfa0f3d63, 0x8d080df5,
    0x3b6e20c8, 0x4c69105e, 0xd56041e4, 0xa2677172, 0x3c03e4d1, 0x4b04d447, 0xd20d85fd, 0xa50ab56b,
    0x35b5a8fa, 0x42b2986c, 0xdbbbc9d6, 0xacbcf940, 0x32d86ce3, 0x45df5c75, 0xdcd60dcf, 0xabd13d59,
    0x26d930ac, 0x51de003a, 0xc8d75180, 0xbfd06116, 0x21b4f4b5, 0x56b3c423, 0xcfba9599, 0xb8bda50f,
    0x2802b89e, 0x5f058808, 0xc60cd9b2, 0xb10be924, 0x2f6f7c87, 0x58684c11, 0xc1611dab, 0xb6662d3d,
    0x76dc4190, 0x01db7106, 0x98d220bc, 0xefd5102a, 0x71b18589, 0x06b6b51f, 0x9fbfe4a5, 0xe8b8d433,
    0x7807c9a2, 0x0f00f934, 0x9609a88e, 0xe10e9818, 0x7f6a0dbb, 0x086d3d2d, 0x91646c97, 0xe6635c01,
    0x6b6b51f4, 0x1c6c6162, 0x856530d8, 0xf262004e, 0x6c0695ed, 0x1b01a57b, 0x8208f4c1, 0xf50fc457,
    0x65b0d9c6, 0x12b7e950, 0x8bbeb8ea, 0xfcb9887c, 0x62dd1ddf, 0x15da2d49, 0x8cd37cf3, 0xfbd44c65,
    0x4db26158, 0x3ab551ce, 0xa3bc0074, 0xd4bb30e2, 0x4adfa541, 0x3dd895d7, 0xa4d1c46d, 0xd3d6f4fb,
    0x4369e96a, 0x346ed9fc, 0xad678846, 0xda60b8d0, 0x44042d73, 0x33031de5, 0xaa0a4c5f, 0xdd0d7cc9,
    0x5005713c, 0x270241aa, 0xbe0b1010, 0xc90c2086, 0x5768b525, 0x206f85b3, 0xb966d409, 0xce61e49f,
    0x5edef90e, 0x29d9c998, 0xb0d09822, 0xc7d7a8b4, 0x59b33d17, 0x2eb40d81, 0xb7bd5c3b, 0xc0ba6cad,
    0xedb88320, 0x9abfb3b6, 0x03b6e20c, 0x74b1d29a, 0xead54739, 0x9dd277af, 0x04db2615, 0x73dc1683,
    0xe3630b12, 0x94643b84, 0x0d6d6a3e, 0x7a6a5aa8, 0xe40ecf0b, 0x9309ff9d, 0x0a00ae27, 0x7d079eb1,
    0xf00f9344, 0x8708a3d2, 0x1e01f268, 0x6906c2fe, 0xf762575d, 0x806567cb, 0x196c3671, 0x6e6b06e7,
    0xfed41b76, 0x89d32be0, 0x10da7a5a, 0x67dd4acc, 0xf9b9df6f, 0x8ebeeff9, 0x17b7be43, 0x60b08ed5,
    0xd6d6a3e8, 0xa1d1937e, 0x38d8c2c4, 0x4fdff252, 0xd1bb67f1, 0xa6bc5767, 0x3fb506dd, 0x48b2364b,
    0xd80d2bda, 0xaf0a1b4c, 0x36034af6, 0x41047a60, 0xdf60efc3, 0xa867df55, 0x316e8eef, 0x4669be79,
    0xcb61b38c, 0xbc66831a, 0x256fd2a0, 0x5268e236, 0xcc0c7795, 0xbb0b4703, 0x220216b9, 0x5505262f,
    0xc5ba3bbe, 0xb2bd0b28, 0x2bb45a92, 0x5cb36a04, 0xc2d7ffa7, 0xb5d0cf31, 0x2cd99e8b, 0x5bdeae1d,
    0x9b64c2b0, 0xec63f226, 0x756aa39c, 0x026d930a, 0x9c0906a9, 0xeb0e363f, 0x72076785, 0x05005713,
    0x95bf4a82, 0xe2b87a14, 0x7bb12bae, 0x0cb61b38, 0x92d28e9b, 0xe5d5be0d, 0x7cdcefb7, 0x0bdbdf21,
    0x86d3d2d4, 0xf1d4e242, 0x68ddb3f8, 0x1fda836e, 0x81be16cd, 0xf6b9265b, 0x6fb077e1, 0x18b74777,
    0x88085ae6, 0xff0f6a70, 0x66063bca, 0x11010b5c, 0x8f659eff, 0xf862ae69, 0x616bffd3, 0x166ccf45,
    0xa00ae278, 0xd70dd2ee, 0x4e048354, 0x3903b3c2, 0xa7672661, 0xd06016f7, 0x4969474d, 0x3e6e77db,
    0xaed16a4a, 0xd9d65adc, 0x40df0b66, 0x37d83bf0, 0xa9bcae53, 0xdebb9ec5, 0x47b2cf7f, 0x30b5ffe9,
    0xbdbdf21c, 0xcabac28a, 0x53b39330, 0x24b4a3a6, 0xbad03605, 0xcdd70693, 0x54de5729, 0x23d967bf,
    0xb3667a2e, 0xc4614ab8, 0x5d681b02, 0x2a6f2b94, 0xb40bbe37, 0xc30c8ea1, 0x5a05df1b, 0x2d02ef8d]

def kCrc32Update (reg : Nat) (bytes : List UInt8) : Nat :=
  bytes.foldl (fun v byte => (v >>> 8) ^^^ crc32Table.getD ((v ^^^ byte.toNat) &&& 0xff) 0) reg

/-- The checksum of a run of bytes; the register starts and ends inverted. -/
def kCrc32 (bytes : List UInt8) : Nat := kCrc32Update 0xffffffff bytes ^^^ 0xffffffff

/-- One log entry as it is persisted. `kind` is 0 for a command, 1 for a no-op
and 2 for a configuration; the masks are only set for a configuration. -/
structure PersistEntry where
  index : Int
  term : Int
  kind : Nat
  cfgOld : List Int
  cfgNew : List Int
  cfgLearners : List Int
  data : List UInt8
deriving DecidableEq, Repr

/-- A persist view handed out by the node: hard state, snapshot base and the log
delta. -/
structure Persist where
  term : Int
  votedFor : Int
  lastIncludedIndex : Int
  lastIncludedTerm : Int
  snapshotDirty : Bool
  snapshotSize : Int
  snapshotCfgOld : List Int
  snapshotCfgNew : List Int
  snapshotCfgLearners : List Int
  logEntries : List PersistEntry
deriving DecidableEq, Repr

/-- What the server remembers about its own snapshot; a view that does not
change the snapshot is written with these values. -/
structure SnapshotCache where
  size : Int
  oldIds : List Int
  newIds : List Int
  learnerIds : List Int
deriving DecidableEq, Repr

/-- The content of one record. -/
structure WalRecord where
  term : Int
  votedFor : Int
  lastIncludedIndex : Int
  lastIncludedTerm : Int
  snapshotSize : Int
  cfgOld : List Int
  cfgNew : List Int
  cfgLearners : List Int
  entries : List PersistEntry
deriving DecidableEq, Repr

/-- What `k_state_serialize` hands to the log worker. -/
structure Bundle where
  walPayload : List UInt8
  durableIndex : Int
  itemCount : Nat
  snapshotDirty : Bool
deriving DecidableEq, Repr

def kBufMask (ids : List Int) : List UInt8 :=
  leBytes 4 ids.length ++ ids.flatMap (leBytesInt 4)

def entryBytes (entry : PersistEntry) : List UInt8 :=
  leBytesInt 8 entry.index ++ (leBytesInt 8 entry.term ++ (leBytes 1 entry.kind ++
    (leBytes 4 entry.data.length ++ (kBufMask entry.cfgOld ++ (kBufMask entry.cfgNew ++
      (kBufMask entry.cfgLearners ++ entry.data))))))

def recordBytes (record : WalRecord) : List UInt8 :=
  leBytesInt 8 record.term ++ (leBytesInt 4 record.votedFor ++
    (leBytesInt 8 record.lastIncludedIndex ++ (leBytesInt 8 record.lastIncludedTerm ++
      (leBytesInt 8 record.snapshotSize ++ (kBufMask record.cfgOld ++ (kBufMask record.cfgNew ++
        (kBufMask record.cfgLearners ++ (leBytes 4 record.entries.length ++
          record.entries.flatMap entryBytes))))))))

/-- The record a view is written as. -/
def recordOf (cache : SnapshotCache) (persist : Persist) : WalRecord where
  term := persist.term
  votedFor := persist.votedFor
  lastIncludedIndex := persist.lastIncludedIndex
  lastIncludedTerm := persist.lastIncludedTerm
  snapshotSize := if persist.snapshotDirty then persist.snapshotSize else cache.size
  cfgOld := if persist.snapshotDirty then persist.snapshotCfgOld else cache.oldIds
  cfgNew := if persist.snapshotDirty then persist.snapshotCfgNew else cache.newIds
  cfgLearners := if persist.snapshotDirty then persist.snapshotCfgLearners else cache.learnerIds
  entries := persist.logEntries

/-- Every mask has at most `maxNodes` members. -/
def masksFit (record : WalRecord) : Bool :=
  decide (record.cfgOld.length ≤ maxNodes) && decide (record.cfgNew.length ≤ maxNodes) &&
    decide (record.cfgLearners.length ≤ maxNodes) &&
    record.entries.all (fun entry => decide (entry.cfgOld.length ≤ maxNodes) &&
      decide (entry.cfgNew.length ≤ maxNodes) && decide (entry.cfgLearners.length ≤ maxNodes))

/-- Serialization fails on an oversized mask or payload. The reported durable
index is that of the last entry, or the snapshot index when there is none. -/
def kStateSerialize (cache : SnapshotCache) (persist : Persist) : Option Bundle :=
  let payload := recordBytes (recordOf cache persist)
  if masksFit (recordOf cache persist) && decide (payload.length ≤ stateMax) then
    some {
      walPayload := payload
      durableIndex := (persist.logEntries.getLast?.map PersistEntry.index).getD
        persist.lastIncludedIndex
      itemCount := persist.logEntries.length
      snapshotDirty := persist.snapshotDirty }
  else none

/-! ## Reading -/

/-- The view recovery rebuilds. -/
structure Restore where
  term : Int
  votedFor : Int
  lastIncludedIndex : Int
  lastIncludedTerm : Int
  snapshotSize : Int
  cfgOld : List Int
  cfgNew : List Int
  cfgLearners : List Int
  entries : List PersistEntry
  generation : Nat
deriving DecidableEq, Repr

def Restore.empty : Restore where
  term := 0
  votedFor := 0
  lastIncludedIndex := 0
  lastIncludedTerm := 0
  snapshotSize := 0
  cfgOld := []
  cfgNew := []
  cfgLearners := []
  entries := []
  generation := 0

/-- Which part of a record header the restored view adopts. -/
inductive HeaderMode where
  | none
  | termVote
  | base
deriving DecidableEq, Repr

def kReaderBytes (size : Nat) (bytes : List UInt8) : Option (List UInt8 × List UInt8) :=
  if size ≤ bytes.length then some (bytes.take size, bytes.drop size) else none

def kReaderUnsigned (width : Nat) (bytes : List UInt8) : Option (Nat × List UInt8) := do
  let (raw, rest) ← kReaderBytes width bytes
  return (leNat raw, rest)

def kReaderSigned (width : Nat) (bytes : List UInt8) : Option (Int × List UInt8) := do
  let (raw, rest) ← kReaderBytes width bytes
  return (leInt raw, rest)

def kReaderU8 : List UInt8 → Option (Nat × List UInt8) := kReaderUnsigned 1
def kReaderU32 : List UInt8 → Option (Nat × List UInt8) := kReaderUnsigned 4
def kReaderI32 : List UInt8 → Option (Int × List UInt8) := kReaderSigned 4
def kReaderI64 : List UInt8 → Option (Int × List UInt8) := kReaderSigned 8

def readIds : Nat → List UInt8 → Option (List Int × List UInt8)
  | 0, bytes => some ([], bytes)
  | count + 1, bytes => do
    let (id, rest) ← kReaderI32 bytes
    let (ids, rest) ← readIds count rest
    return (id :: ids, rest)

def kReaderMask (bytes : List UInt8) : Option (List Int × List UInt8) := do
  let (count, rest) ← kReaderU32 bytes
  if count > maxNodes then none else readIds count rest

def readEntry (bytes : List UInt8) : Option (PersistEntry × List UInt8) := do
  let (index, rest) ← kReaderI64 bytes
  let (term, rest) ← kReaderI64 rest
  let (kind, rest) ← kReaderU8 rest
  let (dataSize, rest) ← kReaderU32 rest
  let (cfgOld, rest) ← kReaderMask rest
  let (cfgNew, rest) ← kReaderMask rest
  let (cfgLearners, rest) ← kReaderMask rest
  let (data, rest) ← kReaderBytes dataSize rest
  return ({ index, term, kind, cfgOld, cfgNew, cfgLearners, data }, rest)

/-- An entry the base covers is skipped. Otherwise what is at or above its index
is dropped from the end, so the last version of an index wins. -/
def kRestorePutEntry (baseFloor : Int) (entries : List PersistEntry) (entry : PersistEntry) :
    List PersistEntry :=
  if entry.index ≤ baseFloor then entries else IndexedLog.put PersistEntry.index entries entry

/-- The entry loop of a record: every entry is put as soon as it is read. -/
def decodeEntries (baseFloor : Int) :
    Nat → List PersistEntry → List UInt8 → Option (List PersistEntry × List UInt8)
  | 0, entries, bytes => some (entries, bytes)
  | count + 1, entries, bytes => do
    let (entry, rest) ← readEntry bytes
    decodeEntries baseFloor count (kRestorePutEntry baseFloor entries entry) rest

/-- A term never regresses; an equal term takes the later vote. -/
def adoptTermVote (restore : Restore) (term votedFor : Int) : Restore :=
  if term > restore.term then { restore with term := term, votedFor := votedFor }
  else if term = restore.term then { restore with votedFor := votedFor }
  else restore

/-- The header of a record and the number of entries that follow it. -/
def readHeader (bytes : List UInt8) : Option (WalRecord × Nat × List UInt8) := do
  let (term, rest) ← kReaderI64 bytes
  let (votedFor, rest) ← kReaderI32 rest
  let (lastIncludedIndex, rest) ← kReaderI64 rest
  let (lastIncludedTerm, rest) ← kReaderI64 rest
  let (snapshotSize, rest) ← kReaderI64 rest
  let (cfgOld, rest) ← kReaderMask rest
  let (cfgNew, rest) ← kReaderMask rest
  let (cfgLearners, rest) ← kReaderMask rest
  let (count, rest) ← kReaderU32 rest
  if count > 2147483647 then none
  else
    let header : WalRecord := {
      term, votedFor, lastIncludedIndex, lastIncludedTerm, snapshotSize, cfgOld, cfgNew
      cfgLearners
      entries := [] }
    return (header, count, rest)

/-- The restored view with the part of a record header that the mode selects. -/
def adoptHeader (restore : Restore) (record : WalRecord) : HeaderMode → Restore
  | .none => restore
  | .termVote => adoptTermVote restore record.term record.votedFor
  | .base => { restore with
      lastIncludedIndex := record.lastIncludedIndex
      lastIncludedTerm := record.lastIncludedTerm
      snapshotSize := record.snapshotSize
      cfgOld := record.cfgOld
      cfgNew := record.cfgNew
      cfgLearners := record.cfgLearners }

/-- Decode one record payload. The entries are put in every mode. -/
def kStateDecodeRecord (restore : Restore) (payload : List UInt8) (generation : Nat)
    (mode : HeaderMode) (baseFloor : Int) : Option Restore := do
  let (header, count, rest) ← readHeader payload
  let restore := adoptHeader restore header mode
  let (entries, rest) ← decodeEntries baseFloor count restore.entries rest
  if rest ≠ [] then none
  else return { restore with entries, generation := max restore.generation generation }

/-! ## Round trip -/

/-- The values fit the C types they are written as. -/
@[mk_iff]
structure PersistEntry.Representable (entry : PersistEntry) : Prop where
  index : FitsInt 8 entry.index
  term : FitsInt 8 entry.term
  kind : entry.kind < 256
  cfgOld : ∀ id ∈ entry.cfgOld, FitsInt 4 id
  cfgNew : ∀ id ∈ entry.cfgNew, FitsInt 4 id
  cfgLearners : ∀ id ∈ entry.cfgLearners, FitsInt 4 id

@[mk_iff]
structure WalRecord.Representable (record : WalRecord) : Prop where
  term : FitsInt 8 record.term
  votedFor : FitsInt 4 record.votedFor
  lastIncludedIndex : FitsInt 8 record.lastIncludedIndex
  lastIncludedTerm : FitsInt 8 record.lastIncludedTerm
  snapshotSize : FitsInt 8 record.snapshotSize
  cfgOld : ∀ id ∈ record.cfgOld, FitsInt 4 id
  cfgNew : ∀ id ∈ record.cfgNew, FitsInt 4 id
  cfgLearners : ∀ id ∈ record.cfgLearners, FitsInt 4 id
  entries : ∀ entry ∈ record.entries, entry.Representable

instance (entry : PersistEntry) : Decidable entry.Representable :=
  decidable_of_iff' _ (PersistEntry.representable_iff entry)

instance (record : WalRecord) : Decidable record.Representable :=
  decidable_of_iff' _ (WalRecord.representable_iff record)

@[simp] theorem kReaderBytes_append (data rest : List UInt8) :
    kReaderBytes data.length (data ++ rest) = some (data, rest) := by
  simp [kReaderBytes]

theorem kReaderUnsigned_append {width value : Nat} (fits : value < 256 ^ width)
    (rest : List UInt8) : kReaderUnsigned width (leBytes width value ++ rest) =
      some (value, rest) := by
  have read := kReaderBytes_append (leBytes width value) rest
  rw [leBytes_length] at read
  simp [kReaderUnsigned, read, leNat_leBytes_of_lt fits]

theorem kReaderSigned_append {width : Nat} {value : Int} (fits : FitsInt width value)
    (rest : List UInt8) : kReaderSigned width (leBytesInt width value ++ rest) =
      some (value, rest) := by
  have read := kReaderBytes_append (leBytesInt width value) rest
  rw [leBytesInt_length] at read
  simp [kReaderSigned, read, leInt_leBytesInt fits]

/-- What a reader accepts is the encoding of what it returns. -/
theorem kReaderBytes_some {size : Nat} {bytes data rest : List UInt8}
    (read : kReaderBytes size bytes = some (data, rest)) :
    bytes = data ++ rest ∧ data.length = size := by
  unfold kReaderBytes at read
  split at read
  · next enough =>
    cases read
    exact ⟨(List.take_append_drop size bytes).symm, List.length_take_of_le enough⟩
  · cases read

theorem kReaderUnsigned_some {width value : Nat} {bytes rest : List UInt8}
    (read : kReaderUnsigned width bytes = some (value, rest)) :
    bytes = leBytes width value ++ rest ∧ value < 256 ^ width := by
  simp only [kReaderUnsigned, Option.bind_eq_bind, Option.bind_eq_some_iff, Option.pure_def,
    Option.some.injEq, Prod.mk.injEq] at read
  obtain ⟨⟨raw, tail⟩, taken, rfl, rfl⟩ := read
  obtain ⟨rfl, rfl⟩ := kReaderBytes_some taken
  exact ⟨by rw [leBytes_leNat], leNat_lt raw⟩

theorem readIds_append {ids : List Int} (fits : ∀ id ∈ ids, FitsInt 4 id) (rest : List UInt8) :
    readIds ids.length (ids.flatMap (leBytesInt 4) ++ rest) = some (ids, rest) := by
  induction ids with
  | nil => rfl
  | cons id ids ih =>
    have read := kReaderSigned_append (fits id (by simp)) (ids.flatMap (leBytesInt 4) ++ rest)
    have tail := ih (fun other member => fits other (by simp [member]))
    simp [readIds, kReaderI32, List.flatMap_cons, List.append_assoc, read, tail]

theorem kReaderMask_append {ids : List Int} (few : ids.length ≤ maxNodes)
    (fits : ∀ id ∈ ids, FitsInt 4 id) (rest : List UInt8) :
    kReaderMask (kBufMask ids ++ rest) = some (ids, rest) := by
  have small : ids.length < 256 ^ 4 := by
    have bound : maxNodes < 256 ^ 4 := by decide
    omega
  have read := kReaderUnsigned_append small (ids.flatMap (leBytesInt 4) ++ rest)
  simp [kReaderMask, kBufMask, kReaderU32, List.append_assoc, read, Nat.not_lt.mpr few,
    readIds_append fits]

/-- What serialization checks of one entry's masks and size. -/
structure PersistEntry.Writable (entry : PersistEntry) : Prop extends entry.Representable where
  fewOld : entry.cfgOld.length ≤ maxNodes
  fewNew : entry.cfgNew.length ≤ maxNodes
  fewLearners : entry.cfgLearners.length ≤ maxNodes
  small : entry.data.length ≤ stateMax

theorem readEntry_append {entry : PersistEntry} (writable : entry.Writable) (rest : List UInt8) :
    readEntry (entryBytes entry ++ rest) = some (entry, rest) := by
  have size : entry.data.length < 256 ^ 4 := by
    have bound : stateMax < 256 ^ 4 := by decide
    have small := writable.small
    omega
  have kind : entry.kind < 256 ^ 1 := writable.kind
  simp [readEntry, entryBytes, kReaderI64, kReaderU8, kReaderU32, List.append_assoc,
    kReaderSigned_append writable.index, kReaderSigned_append writable.term,
    kReaderUnsigned_append kind, kReaderUnsigned_append size,
    kReaderMask_append writable.fewOld writable.cfgOld,
    kReaderMask_append writable.fewNew writable.cfgNew,
    kReaderMask_append writable.fewLearners writable.cfgLearners]

theorem decodeEntries_append {entries : List PersistEntry}
    (writable : ∀ entry ∈ entries, entry.Writable) (baseFloor : Int) (held : List PersistEntry)
    (rest : List UInt8) :
    decodeEntries baseFloor entries.length held (entries.flatMap entryBytes ++ rest) =
      some (entries.foldl (kRestorePutEntry baseFloor) held, rest) := by
  induction entries generalizing held with
  | nil => rfl
  | cons entry entries ih =>
    have read := readEntry_append (writable entry (by simp)) (entries.flatMap entryBytes ++ rest)
    have tail := ih (fun other member => writable other (by simp [member]))
      (kRestorePutEntry baseFloor held entry)
    simp [decodeEntries, List.flatMap_cons, List.append_assoc, read, tail]

/-- What decoding makes of a record whose bytes are intact. -/
def decoded (restore : Restore) (record : WalRecord) (generation : Nat) (mode : HeaderMode)
    (baseFloor : Int) : Restore :=
  { adoptHeader restore record mode with
    entries := record.entries.foldl (kRestorePutEntry baseFloor) restore.entries
    generation := max restore.generation generation }

@[simp] theorem adoptHeader_entries (restore : Restore) (record : WalRecord) (mode : HeaderMode) :
    (adoptHeader restore record mode).entries = restore.entries := by
  cases mode with
  | none => rfl
  | termVote =>
    simp only [adoptHeader, adoptTermVote]
    split
    · rfl
    · split <;> rfl
  | base => rfl

@[simp] theorem adoptHeader_generation (restore : Restore) (record : WalRecord)
    (mode : HeaderMode) : (adoptHeader restore record mode).generation = restore.generation := by
  cases mode with
  | none => rfl
  | termVote =>
    simp only [adoptHeader, adoptTermVote]
    split
    · rfl
    · split <;> rfl
  | base => rfl

/-- A record that serialization accepts. -/
structure WalRecord.Writable (record : WalRecord) : Prop extends record.Representable where
  masks : masksFit record = true
  small : (recordBytes record).length ≤ stateMax

theorem entry_length_le {record : WalRecord} {entry : PersistEntry}
    (member : entry ∈ record.entries) :
    entry.data.length ≤ (recordBytes record).length := by
  have inner : (entryBytes entry).length ≤ (record.entries.flatMap entryBytes).length := by
    obtain ⟨front, back, split⟩ := List.append_of_mem member
    simp only [split, List.flatMap_append, List.flatMap_cons, List.length_append]
    omega
  simp only [entryBytes, recordBytes, List.length_append] at inner ⊢
  omega

theorem entries_length_le (entries : List PersistEntry) :
    entries.length ≤ (entries.flatMap entryBytes).length := by
  induction entries with
  | nil => simp
  | cons entry entries ih =>
    simp only [List.flatMap_cons, List.length_append, List.length_cons, entryBytes,
      leBytesInt_length] at ih ⊢
    omega

theorem WalRecord.Writable.entry {record : WalRecord} (writable : record.Writable)
    {entry : PersistEntry} (member : entry ∈ record.entries) : entry.Writable := by
  have masks := writable.masks
  simp only [masksFit, Bool.and_eq_true, decide_eq_true_eq, List.all_eq_true] at masks
  obtain ⟨⟨fewOld, fewNew⟩, fewLearners⟩ := masks.2 entry member
  exact {
    toRepresentable := writable.entries entry member
    fewOld, fewNew, fewLearners
    small := le_trans (entry_length_le member) writable.small }

theorem readHeader_recordBytes {record : WalRecord} (writable : record.Writable) :
    readHeader (recordBytes record) = some ({ record with entries := [] }, record.entries.length,
      record.entries.flatMap entryBytes) := by
  have masks := writable.masks
  simp only [masksFit, Bool.and_eq_true, decide_eq_true_eq] at masks
  obtain ⟨⟨⟨fewOld, fewNew⟩, fewLearners⟩, -⟩ := masks
  have few : record.entries.length ≤ stateMax := by
    have inner := entries_length_le record.entries
    have small := writable.small
    simp only [recordBytes, List.length_append] at small
    omega
  have count : record.entries.length < 256 ^ 4 := by
    have bound : stateMax < 256 ^ 4 := by decide
    omega
  have legal : ¬ record.entries.length > 2147483647 := by
    have bound : stateMax < 2147483647 := by decide
    omega
  unfold readHeader recordBytes kReaderI64 kReaderI32 kReaderU32
  rw [kReaderSigned_append writable.term]
  dsimp only [Option.bind_eq_bind, Option.bind_some]
  rw [kReaderSigned_append writable.votedFor]
  dsimp only [Option.bind_some]
  rw [kReaderSigned_append writable.lastIncludedIndex]
  dsimp only [Option.bind_some]
  rw [kReaderSigned_append writable.lastIncludedTerm]
  dsimp only [Option.bind_some]
  rw [kReaderSigned_append writable.snapshotSize]
  dsimp only [Option.bind_some]
  rw [kReaderMask_append fewOld writable.cfgOld]
  dsimp only [Option.bind_some]
  rw [kReaderMask_append fewNew writable.cfgNew]
  dsimp only [Option.bind_some]
  rw [kReaderMask_append fewLearners writable.cfgLearners]
  dsimp only [Option.bind_some]
  rw [kReaderUnsigned_append count]
  dsimp only [Option.bind_some]
  rw [if_neg legal]
  rfl

/-- Decoding the bytes of a record adopts exactly the record. -/
theorem kStateDecodeRecord_recordBytes {record : WalRecord} (writable : record.Writable)
    (restore : Restore) (generation : Nat) (mode : HeaderMode) (baseFloor : Int) :
    kStateDecodeRecord restore (recordBytes record) generation mode baseFloor =
      some (decoded restore record generation mode baseFloor) := by
  have body := decodeEntries_append (fun entry member => writable.entry member) baseFloor
    restore.entries []
  rw [List.append_nil] at body
  have header : adoptHeader restore { record with entries := [] } mode =
      adoptHeader restore record mode := by
    cases mode <;> rfl
  simp [kStateDecodeRecord, readHeader_recordBytes writable, header, body, decoded]

/-- Serialization accepts exactly the writable records and writes their bytes. -/
theorem kStateSerialize_writable {cache : SnapshotCache} {persist : Persist} {bundle : Bundle}
    (representable : (recordOf cache persist).Representable)
    (serialized : kStateSerialize cache persist = some bundle) :
    (recordOf cache persist).Writable ∧ bundle.walPayload = recordBytes (recordOf cache persist) := by
  simp only [kStateSerialize] at serialized
  split at serialized
  · rename_i accepted
    simp only [Bool.and_eq_true, decide_eq_true_eq] at accepted
    cases serialized
    exact ⟨⟨representable, accepted.1, accepted.2⟩, rfl⟩
  · cases serialized

end Kynovo.Wal.Record
