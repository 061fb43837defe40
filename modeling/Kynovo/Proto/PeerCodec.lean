import Kynovo.Raft.Types
import Kynovo.Proto.Framing
import Kynovo.Proto.Fields

/-! The codec of messages between nodes. A message is encoded field by field,
flags as one byte that is 0 or 1; an AppendEntries message whose entries do not
all fit one frame is cut to the entries that do. The decoder keeps a flag byte
as it is. A missing array of an AppendEntries message stands for its default
(command entries, empty id sets, no data), so a message is given here by its
entries. -/
namespace Kynovo.Proto.PeerCodec
open Kynovo.Lib
open Kynovo.Lib.LittleEndian
open Kynovo.Wal.Record (maxNodes kBufMask kReaderBytes kReaderU8 kReaderU32 kReaderI32 kReaderI64
  kReaderMask)
open Kynovo.Proto.Fields
open Kynovo.Proto.Framing (frameMax)
open Kynovo.Raft (Entry AppendEntries InstallSnapshotResult TimeoutNow ReadIndexReq ReadIndexResult)

def raftCommandMax : Nat := frameMax - 256
def entryCountMax : Nat := 65536

/-! ## Messages, with the flags as the C integers they are -/

structure RequestVote where
  term : Int
  lastLogIndex : Int
  lastLogTerm : Int
  candidateId : Int
  preVote : Int
deriving DecidableEq

structure RequestVoteResult where
  term : Int
  voteGranted : Int
  preVote : Int
deriving DecidableEq

structure AppendEntriesResult where
  term : Int
  rejected : Int
  lastLogIndex : Int
  conflictTerm : Int
  conflictFirstIndex : Int
  readContext : Nat
  success : Int
deriving DecidableEq

structure InstallSnapshot where
  term : Int
  snapshotLastIndex : Int
  snapshotLastTerm : Int
  snapshotOffset : Int
  snapshotDataSize : Int
  snapshotChunkSize : Int
  snapshotCfgOld : List Int
  snapshotCfgNew : List Int
  snapshotCfgLearners : List Int
  snapshotDone : Int
  leaderId : Int
  snapshotData : List UInt8
deriving DecidableEq

inductive Rpc where
  | requestVote (rpc : RequestVote)
  | requestVoteResult (result : RequestVoteResult)
  | appendEntries (rpc : AppendEntries)
  | appendEntriesResult (result : AppendEntriesResult)
  | installSnapshot (rpc : InstallSnapshot)
  | installSnapshotResult (result : InstallSnapshotResult)
  | readIndex (rpc : ReadIndexReq)
  | readIndexResult (result : ReadIndexResult)
  | timeoutNow (rpc : TimeoutNow)
deriving DecidableEq

structure PeerMessage where
  sender : Int
  target : Int
  term : Int
  rpc : Rpc
deriving DecidableEq

def Rpc.type : Rpc → Nat
  | .requestVote _ => 1
  | .requestVoteResult _ => 2
  | .appendEntries _ => 3
  | .appendEntriesResult _ => 4
  | .installSnapshot _ => 5
  | .installSnapshotResult _ => 6
  | .readIndex _ => 7
  | .readIndexResult _ => 8
  | .timeoutNow _ => 9

/-! ## Encoding -/

def flagBytes (flag : Int) : List UInt8 := leBytes 1 flag.toNat

def requestVoteBytes (rpc : RequestVote) : List UInt8 :=
  leBytesInt 8 rpc.term ++ (leBytesInt 8 rpc.lastLogIndex ++ (leBytesInt 8 rpc.lastLogTerm ++
    (leBytesInt 4 rpc.candidateId ++ flagBytes rpc.preVote)))

def requestVoteResultBytes (result : RequestVoteResult) : List UInt8 :=
  leBytesInt 8 result.term ++ (flagBytes result.voteGranted ++ flagBytes result.preVote)

def entryHeadBytes (entry : Entry) : List UInt8 :=
  leBytesInt 8 entry.term ++ (leBytes 1 entry.kind ++ (leBytes 4 entry.data.length ++
    (kBufMask entry.cfgOld ++ (kBufMask entry.cfgNew ++ kBufMask entry.cfgLearners))))

/-- The entries' heads first, then all their data. -/
def entriesBytes (entries : List Entry) : List UInt8 :=
  entries.flatMap entryHeadBytes ++ entries.flatMap Entry.data

def appendEntriesBytes (rpc : AppendEntries) : List UInt8 :=
  leBytesInt 8 rpc.term ++ (leBytesInt 8 rpc.prevLogIndex ++ (leBytesInt 8 rpc.prevLogTerm ++
    (leBytesInt 8 rpc.leaderCommit ++ (leBytesInt 4 rpc.leaderId ++ (leBytes 8 rpc.readContext ++
      (leBytes 4 rpc.entries.length ++ entriesBytes rpc.entries))))))

def appendEntriesResultBytes (result : AppendEntriesResult) : List UInt8 :=
  leBytesInt 8 result.term ++ (leBytesInt 8 result.rejected ++ (leBytesInt 8 result.lastLogIndex ++
    (leBytesInt 8 result.conflictTerm ++ (leBytesInt 8 result.conflictFirstIndex ++
      (leBytes 8 result.readContext ++ flagBytes result.success)))))

def installSnapshotBytes (rpc : InstallSnapshot) : List UInt8 :=
  leBytesInt 8 rpc.term ++ (leBytesInt 8 rpc.snapshotLastIndex ++
    (leBytesInt 8 rpc.snapshotLastTerm ++ (leBytesInt 8 rpc.snapshotOffset ++
      (leBytesInt 8 rpc.snapshotDataSize ++ (leBytesInt 8 rpc.snapshotChunkSize ++
        (kBufMask rpc.snapshotCfgOld ++ (kBufMask rpc.snapshotCfgNew ++
          (kBufMask rpc.snapshotCfgLearners ++ (flagBytes rpc.snapshotDone ++
            (leBytesInt 4 rpc.leaderId ++ rpc.snapshotData))))))))))

def installSnapshotResultBytes (result : InstallSnapshotResult) : List UInt8 :=
  leBytesInt 8 result.term ++ leBytesInt 8 result.lastIncludedIndex

def readIndexBytes (rpc : ReadIndexReq) : List UInt8 :=
  leBytesInt 8 rpc.term ++ leBytes 8 rpc.context

def readIndexResultBytes (result : ReadIndexResult) : List UInt8 :=
  leBytesInt 8 result.term ++ (leBytesInt 8 result.readIndex ++ leBytes 8 result.context)

def timeoutNowBytes (rpc : TimeoutNow) : List UInt8 :=
  leBytesInt 8 rpc.term ++ (leBytesInt 8 rpc.lastLogIndex ++ (leBytesInt 8 rpc.lastLogTerm ++
    leBytesInt 4 rpc.leaderId))

def rpcBytes : Rpc → List UInt8
  | .requestVote rpc => requestVoteBytes rpc
  | .requestVoteResult result => requestVoteResultBytes result
  | .appendEntries rpc => appendEntriesBytes rpc
  | .appendEntriesResult result => appendEntriesResultBytes result
  | .installSnapshot rpc => installSnapshotBytes rpc
  | .installSnapshotResult result => installSnapshotResultBytes result
  | .readIndex rpc => readIndexBytes rpc
  | .readIndexResult result => readIndexResultBytes result
  | .timeoutNow rpc => timeoutNowBytes rpc

def peerHeadBytes (message : PeerMessage) : List UInt8 :=
  leBytes 1 message.rpc.type ++ (leBytesInt 4 message.sender ++ (leBytesInt 4 message.target ++
    leBytesInt 8 message.term))

/-- Every field as it is, the flags included. -/
def peerBytes (message : PeerMessage) : List UInt8 :=
  peerHeadBytes message ++ rpcBytes message.rpc

def normalFlag (flag : Int) : Int := if flag ≠ 0 then 1 else 0

def Rpc.normal : Rpc → Rpc
  | .requestVote rpc => .requestVote { rpc with preVote := normalFlag rpc.preVote }
  | .requestVoteResult result => .requestVoteResult { result with
      voteGranted := normalFlag result.voteGranted
      preVote := normalFlag result.preVote }
  | .appendEntriesResult result =>
    .appendEntriesResult { result with success := normalFlag result.success }
  | .installSnapshot rpc => .installSnapshot { rpc with snapshotDone := normalFlag rpc.snapshotDone }
  | rpc => rpc

def PeerMessage.normal (message : PeerMessage) : PeerMessage :=
  { message with rpc := message.rpc.normal }

/-- The bytes of an entry's head. -/
def wireSize (entry : Entry) : Nat :=
  13 + (12 + 4 * (entry.cfgOld.length + entry.cfgNew.length + entry.cfgLearners.length))

def entryMasksFit (entry : Entry) : Bool :=
  decide (entry.cfgOld.length ≤ maxNodes) && decide (entry.cfgNew.length ≤ maxNodes) &&
    decide (entry.cfgLearners.length ≤ maxNodes)

/-- The entries of the encoding loop: it stops in front of the first one that
would pass the frame limit with the data counted so far, and fails on an id set
that is too large. -/
def fitting : Nat → Nat → List Entry → Option (List Entry)
  | _, _, [] => some []
  | len, dataSize, entry :: rest =>
    if !entryMasksFit entry then none
    else if len + wireSize entry + dataSize + entry.data.length > frameMax then some []
    else (fitting (len + wireSize entry) (dataSize + entry.data.length) rest).map (entry :: ·)

/-- What the switch over the message kind writes, or an error. -/
def encodeRpc (headLen : Nat) : Rpc → Option (List UInt8)
  | .appendEntries rpc =>
    if rpc.entries.length > entryCountMax then none
    else do
      let start := headLen + (appendEntriesBytes { rpc with entries := [] }).length
      let kept ← fitting start 0 rpc.entries
      if rpc.entries ≠ [] ∧ kept = [] then none
      else return appendEntriesBytes { rpc with entries := kept }
  | .installSnapshot rpc =>
    if rpc.snapshotCfgOld.length > maxNodes ∨ rpc.snapshotCfgNew.length > maxNodes ∨
        rpc.snapshotCfgLearners.length > maxNodes then none
    else if rpc.snapshotChunkSize < 0 ∨ rpc.snapshotChunkSize > frameMax then none
    else some (installSnapshotBytes rpc)
  | rpc => some (rpcBytes rpc)

def kPeerEncode (message : PeerMessage) : Option (List UInt8) := do
  let head := peerHeadBytes message
  let body ← encodeRpc head.length message.rpc.normal
  if (head ++ body).length > frameMax then none else return head ++ body

/-! ## Decoding -/

def readRequestVote (bytes : List UInt8) : Option (RequestVote × List UInt8) := do
  let (term, rest) ← kReaderI64 bytes
  let (lastLogIndex, rest) ← kReaderI64 rest
  let (lastLogTerm, rest) ← kReaderI64 rest
  let (candidateId, rest) ← kReaderI32 rest
  let (preVote, rest) ← kReaderFlag rest
  return ({ term, lastLogIndex, lastLogTerm, candidateId, preVote }, rest)

def readRequestVoteResult (bytes : List UInt8) : Option (RequestVoteResult × List UInt8) := do
  let (term, rest) ← kReaderI64 bytes
  let (voteGranted, rest) ← kReaderFlag rest
  let (preVote, rest) ← kReaderFlag rest
  return ({ term, voteGranted, preVote }, rest)

/-- An entry without its data, and the size of the data. -/
structure EntryHead where
  term : Int
  kind : Nat
  size : Nat
  cfgOld : List Int
  cfgNew : List Int
  cfgLearners : List Int
deriving DecidableEq

/-- The entry loop of the decoder, with the data size counted so far. -/
def readEntryHeads : Nat → Nat → List UInt8 → Option (List EntryHead × Nat × List UInt8)
  | 0, total, bytes => some ([], total, bytes)
  | count + 1, total, bytes => do
    let (term, rest) ← kReaderI64 bytes
    let (kind, rest) ← kReaderU8 rest
    let (size, rest) ← kReaderU32 rest
    if size > frameMax - total then none
    else
      let (cfgOld, rest) ← kReaderMask rest
      let (cfgNew, rest) ← kReaderMask rest
      let (cfgLearners, rest) ← kReaderMask rest
      let (heads, total, rest) ← readEntryHeads count (total + size) rest
      return ({ term, kind, size, cfgOld, cfgNew, cfgLearners } :: heads, total, rest)

/-- The data is one block, cut by the sizes. -/
def fillEntries : List EntryHead → List UInt8 → List Entry
  | [], _ => []
  | head :: heads, data =>
    { term := head.term, kind := head.kind, data := data.take head.size, cfgOld := head.cfgOld
      cfgNew := head.cfgNew, cfgLearners := head.cfgLearners } ::
      fillEntries heads (data.drop head.size)

/-- The entries of a message and nothing behind them: the data must be exactly
the bytes that remain. -/
def readEntries (count : Nat) (bytes : List UInt8) : Option (List Entry × List UInt8) := do
  let (heads, total, rest) ← readEntryHeads count 0 bytes
  if total ≠ rest.length then none
  else
    let (data, rest) ← kReaderBytes total rest
    return (fillEntries heads data, rest)

/-- An AppendEntries message, given how its entries are read. -/
def readAppendWith (entriesReader : Nat → Reader (List Entry)) (bytes : List UInt8) :
    Option (AppendEntries × List UInt8) := do
  let (term, rest) ← kReaderI64 bytes
  let (prevLogIndex, rest) ← kReaderI64 rest
  let (prevLogTerm, rest) ← kReaderI64 rest
  let (leaderCommit, rest) ← kReaderI64 rest
  let (leaderId, rest) ← kReaderI32 rest
  let (readContext, rest) ← kReaderU64 rest
  let (count, rest) ← kReaderU32 rest
  if count > entryCountMax then none
  else
    let (entries, rest) ← entriesReader count rest
    return ({ term, prevLogIndex, prevLogTerm, leaderCommit, readContext, entries, leaderId }, rest)

def readAppendEntries : Reader AppendEntries := readAppendWith readEntries

def readAppendEntriesResult (bytes : List UInt8) : Option (AppendEntriesResult × List UInt8) := do
  let (term, rest) ← kReaderI64 bytes
  let (rejected, rest) ← kReaderI64 rest
  let (lastLogIndex, rest) ← kReaderI64 rest
  let (conflictTerm, rest) ← kReaderI64 rest
  let (conflictFirstIndex, rest) ← kReaderI64 rest
  let (readContext, rest) ← kReaderU64 rest
  let (success, rest) ← kReaderFlag rest
  return ({ term, rejected, lastLogIndex, conflictTerm, conflictFirstIndex, readContext, success },
    rest)

def readInstallSnapshot (bytes : List UInt8) : Option (InstallSnapshot × List UInt8) := do
  let (term, rest) ← kReaderI64 bytes
  let (snapshotLastIndex, rest) ← kReaderI64 rest
  let (snapshotLastTerm, rest) ← kReaderI64 rest
  let (snapshotOffset, rest) ← kReaderI64 rest
  let (snapshotDataSize, rest) ← kReaderI64 rest
  let (snapshotChunkSize, rest) ← kReaderI64 rest
  let (snapshotCfgOld, rest) ← kReaderMask rest
  let (snapshotCfgNew, rest) ← kReaderMask rest
  let (snapshotCfgLearners, rest) ← kReaderMask rest
  let (snapshotDone, rest) ← kReaderFlag rest
  let (leaderId, rest) ← kReaderI32 rest
  if snapshotChunkSize < 0 then none
  else
    let (snapshotData, rest) ← kReaderBytes snapshotChunkSize.toNat rest
    return ({ term, snapshotLastIndex, snapshotLastTerm, snapshotOffset, snapshotDataSize
              snapshotChunkSize, snapshotCfgOld, snapshotCfgNew, snapshotCfgLearners, snapshotDone
              leaderId, snapshotData }, rest)

def readInstallSnapshotResult (bytes : List UInt8) :
    Option (InstallSnapshotResult × List UInt8) := do
  let (term, rest) ← kReaderI64 bytes
  let (lastIncludedIndex, rest) ← kReaderI64 rest
  return ({ term, lastIncludedIndex }, rest)

def readReadIndex (bytes : List UInt8) : Option (ReadIndexReq × List UInt8) := do
  let (term, rest) ← kReaderI64 bytes
  let (context, rest) ← kReaderU64 rest
  return ({ term, context }, rest)

def readReadIndexResult (bytes : List UInt8) : Option (ReadIndexResult × List UInt8) := do
  let (term, rest) ← kReaderI64 bytes
  let (readIndex, rest) ← kReaderI64 rest
  let (context, rest) ← kReaderU64 rest
  return ({ term, readIndex, context }, rest)

def readTimeoutNow (bytes : List UInt8) : Option (TimeoutNow × List UInt8) := do
  let (term, rest) ← kReaderI64 bytes
  let (lastLogIndex, rest) ← kReaderI64 rest
  let (lastLogTerm, rest) ← kReaderI64 rest
  let (leaderId, rest) ← kReaderI32 rest
  return ({ term, lastLogIndex, lastLogTerm, leaderId }, rest)

/-- The switch over the message kind; an unknown kind is refused. -/
def readRpc (type : Nat) (bytes : List UInt8) : Option (Rpc × List UInt8) :=
  match type with
  | 1 => (readRequestVote bytes).map fun p => (.requestVote p.1, p.2)
  | 2 => (readRequestVoteResult bytes).map fun p => (.requestVoteResult p.1, p.2)
  | 3 => (readAppendEntries bytes).map fun p => (.appendEntries p.1, p.2)
  | 4 => (readAppendEntriesResult bytes).map fun p => (.appendEntriesResult p.1, p.2)
  | 5 => (readInstallSnapshot bytes).map fun p => (.installSnapshot p.1, p.2)
  | 6 => (readInstallSnapshotResult bytes).map fun p => (.installSnapshotResult p.1, p.2)
  | 7 => (readReadIndex bytes).map fun p => (.readIndex p.1, p.2)
  | 8 => (readReadIndexResult bytes).map fun p => (.readIndexResult p.1, p.2)
  | 9 => (readTimeoutNow bytes).map fun p => (.timeoutNow p.1, p.2)
  | _ => none

def kPeerDecode (bytes : List UInt8) : Option PeerMessage := do
  let (type, rest) ← kReaderU8 bytes
  let (sender, rest) ← kReaderI32 rest
  let (target, rest) ← kReaderI32 rest
  let (term, rest) ← kReaderI64 rest
  let (rpc, rest) ← readRpc type rest
  if rest ≠ [] ∨ sender ≤ 0 ∨ target ≤ 0 then none
  else return { sender, target, term, rpc }

/-! ## What each reader accepts -/

@[mk_iff]
structure RequestVote.Fits (rpc : RequestVote) : Prop where
  term : FitsInt 8 rpc.term
  lastLogIndex : FitsInt 8 rpc.lastLogIndex
  lastLogTerm : FitsInt 8 rpc.lastLogTerm
  candidateId : FitsInt 4 rpc.candidateId
  preVote : IsFlag rpc.preVote

theorem requestVote_codec :
    Codec.Whole readRequestVote requestVoteBytes RequestVote.Fits := by
  refine Codec.restate ?_ fun rpc => RequestVote.fits_iff rpc |>.symm
  refine Codec.field RequestVote.term (signed_codec 8) fun term => ?_
  refine Codec.field RequestVote.lastLogIndex (signed_codec 8) fun lastLogIndex => ?_
  refine Codec.field RequestVote.lastLogTerm (signed_codec 8) fun lastLogTerm => ?_
  refine Codec.field RequestVote.candidateId (signed_codec 4) fun candidateId => ?_
  refine Codec.last RequestVote.preVote flag_codec (fun _ _ => rfl) fun preVote rpc => ?_
  cases rpc
  simp [and_assoc]

@[mk_iff]
structure RequestVoteResult.Fits (result : RequestVoteResult) : Prop where
  term : FitsInt 8 result.term
  voteGranted : IsFlag result.voteGranted
  preVote : IsFlag result.preVote

theorem requestVoteResult_codec :
    Codec.Whole readRequestVoteResult requestVoteResultBytes RequestVoteResult.Fits := by
  refine Codec.restate ?_ fun result => RequestVoteResult.fits_iff result |>.symm
  refine Codec.field RequestVoteResult.term (signed_codec 8) fun term => ?_
  refine Codec.field RequestVoteResult.voteGranted flag_codec fun voteGranted => ?_
  refine Codec.last RequestVoteResult.preVote flag_codec (fun _ _ => rfl) fun preVote result => ?_
  cases result
  simp [and_assoc]

@[mk_iff]
structure AppendEntriesResult.Fits (result : AppendEntriesResult) : Prop where
  term : FitsInt 8 result.term
  rejected : FitsInt 8 result.rejected
  lastLogIndex : FitsInt 8 result.lastLogIndex
  conflictTerm : FitsInt 8 result.conflictTerm
  conflictFirstIndex : FitsInt 8 result.conflictFirstIndex
  readContext : result.readContext < 256 ^ 8
  success : IsFlag result.success

theorem appendEntriesResult_codec :
    Codec.Whole readAppendEntriesResult appendEntriesResultBytes AppendEntriesResult.Fits := by
  refine Codec.restate ?_ fun result => AppendEntriesResult.fits_iff result |>.symm
  refine Codec.field AppendEntriesResult.term (signed_codec 8) fun term => ?_
  refine Codec.field AppendEntriesResult.rejected (signed_codec 8) fun rejected => ?_
  refine Codec.field AppendEntriesResult.lastLogIndex (signed_codec 8) fun lastLogIndex => ?_
  refine Codec.field AppendEntriesResult.conflictTerm (signed_codec 8) fun conflictTerm => ?_
  refine Codec.field AppendEntriesResult.conflictFirstIndex (signed_codec 8) fun conflictFirstIndex => ?_
  refine Codec.field AppendEntriesResult.readContext (unsigned_codec 8) fun readContext => ?_
  refine Codec.last AppendEntriesResult.success flag_codec (fun _ _ => rfl) fun success result => ?_
  cases result
  simp [and_assoc]

@[mk_iff]
structure InstallSnapshotResult.Fits (result : InstallSnapshotResult) : Prop where
  term : FitsInt 8 result.term
  lastIncludedIndex : FitsInt 8 result.lastIncludedIndex

theorem installSnapshotResult_codec :
    Codec.Whole readInstallSnapshotResult installSnapshotResultBytes InstallSnapshotResult.Fits := by
  refine Codec.restate ?_ fun result => InstallSnapshotResult.fits_iff result |>.symm
  refine Codec.field InstallSnapshotResult.term (signed_codec 8) fun term => ?_
  refine Codec.last InstallSnapshotResult.lastIncludedIndex (signed_codec 8) (fun _ _ => rfl) fun lastIncludedIndex result => ?_
  cases result
  simp

@[mk_iff]
structure ReadIndexReq.Fits (rpc : ReadIndexReq) : Prop where
  term : FitsInt 8 rpc.term
  context : rpc.context < 256 ^ 8

theorem readIndex_codec :
    Codec.Whole readReadIndex readIndexBytes ReadIndexReq.Fits := by
  refine Codec.restate ?_ fun rpc => ReadIndexReq.fits_iff rpc |>.symm
  refine Codec.field ReadIndexReq.term (signed_codec 8) fun term => ?_
  refine Codec.last ReadIndexReq.context (unsigned_codec 8) (fun _ _ => rfl) fun context rpc => ?_
  cases rpc
  simp

@[mk_iff]
structure ReadIndexResult.Fits (result : ReadIndexResult) : Prop where
  term : FitsInt 8 result.term
  readIndex : FitsInt 8 result.readIndex
  context : result.context < 256 ^ 8

theorem readIndexResult_codec :
    Codec.Whole readReadIndexResult readIndexResultBytes ReadIndexResult.Fits := by
  refine Codec.restate ?_ fun result => ReadIndexResult.fits_iff result |>.symm
  refine Codec.field ReadIndexResult.term (signed_codec 8) fun term => ?_
  refine Codec.field ReadIndexResult.readIndex (signed_codec 8) fun readIndex => ?_
  refine Codec.last ReadIndexResult.context (unsigned_codec 8) (fun _ _ => rfl) fun context result => ?_
  cases result
  simp [and_assoc]

@[mk_iff]
structure TimeoutNow.Fits (rpc : TimeoutNow) : Prop where
  term : FitsInt 8 rpc.term
  lastLogIndex : FitsInt 8 rpc.lastLogIndex
  lastLogTerm : FitsInt 8 rpc.lastLogTerm
  leaderId : FitsInt 4 rpc.leaderId

theorem timeoutNow_codec :
    Codec.Whole readTimeoutNow timeoutNowBytes TimeoutNow.Fits := by
  refine Codec.restate ?_ fun rpc => TimeoutNow.fits_iff rpc |>.symm
  refine Codec.field TimeoutNow.term (signed_codec 8) fun term => ?_
  refine Codec.field TimeoutNow.lastLogIndex (signed_codec 8) fun lastLogIndex => ?_
  refine Codec.field TimeoutNow.lastLogTerm (signed_codec 8) fun lastLogTerm => ?_
  refine Codec.last TimeoutNow.leaderId (signed_codec 4) (fun _ _ => rfl) fun leaderId rpc => ?_
  cases rpc
  simp [and_assoc]

@[mk_iff]
structure InstallSnapshot.Fits (rpc : InstallSnapshot) : Prop where
  term : FitsInt 8 rpc.term
  snapshotLastIndex : FitsInt 8 rpc.snapshotLastIndex
  snapshotLastTerm : FitsInt 8 rpc.snapshotLastTerm
  snapshotOffset : FitsInt 8 rpc.snapshotOffset
  snapshotDataSize : FitsInt 8 rpc.snapshotDataSize
  snapshotChunkSize : FitsInt 8 rpc.snapshotChunkSize
  snapshotCfgOld : IsMask rpc.snapshotCfgOld
  snapshotCfgNew : IsMask rpc.snapshotCfgNew
  snapshotCfgLearners : IsMask rpc.snapshotCfgLearners
  snapshotDone : IsFlag rpc.snapshotDone
  leaderId : FitsInt 4 rpc.leaderId

/-- The chunk has the size the message gives. -/
def InstallSnapshot.Sized (rpc : InstallSnapshot) : Prop :=
  rpc.snapshotChunkSize = rpc.snapshotData.length

theorem installSnapshot_sized :
    Codec InstallSnapshot.Sized readInstallSnapshot installSnapshotBytes InstallSnapshot.Fits := by
  have same : ∀ rpc : InstallSnapshot, (FitsInt 8 rpc.term ∧ FitsInt 8 rpc.snapshotLastIndex ∧
      FitsInt 8 rpc.snapshotLastTerm ∧ FitsInt 8 rpc.snapshotOffset ∧
      FitsInt 8 rpc.snapshotDataSize ∧ FitsInt 8 rpc.snapshotChunkSize ∧
      IsMask rpc.snapshotCfgOld ∧ IsMask rpc.snapshotCfgNew ∧ IsMask rpc.snapshotCfgLearners ∧
      IsFlag rpc.snapshotDone ∧ FitsInt 4 rpc.leaderId ∧ True) ↔ rpc.Fits := by
    intro rpc
    rw [rpc.fits_iff, and_true]
  refine Codec.restate ?_ same
  refine Codec.field InstallSnapshot.term (signed_codec 8) fun term => ?_
  refine Codec.field InstallSnapshot.snapshotLastIndex (signed_codec 8) fun lastIndex => ?_
  refine Codec.field InstallSnapshot.snapshotLastTerm (signed_codec 8) fun lastTerm => ?_
  refine Codec.field InstallSnapshot.snapshotOffset (signed_codec 8) fun offset => ?_
  refine Codec.field InstallSnapshot.snapshotDataSize (signed_codec 8) fun dataSize => ?_
  refine Codec.field InstallSnapshot.snapshotChunkSize (signed_codec 8) fun chunkSize => ?_
  refine Codec.field InstallSnapshot.snapshotCfgOld mask_codec fun cfgOld => ?_
  refine Codec.field InstallSnapshot.snapshotCfgNew mask_codec fun cfgNew => ?_
  refine Codec.field InstallSnapshot.snapshotCfgLearners mask_codec fun cfgLearners => ?_
  refine Codec.field InstallSnapshot.snapshotDone flag_codec fun isDone => ?_
  refine Codec.field InstallSnapshot.leaderId (signed_codec 4) fun leaderId => ?_
  refine Codec.guard (fun nonneg => Codec.lastSized InstallSnapshot.snapshotData ?_
    (bytes_codec _) (fun _ _ => rfl) ?_) ?_
  · intro rpc holds
    obtain ⟨⟨⟨⟨⟨⟨⟨⟨⟨⟨⟨sized, -⟩, -⟩, -⟩, -⟩, -⟩, rfl⟩, -⟩, -⟩, -⟩, -⟩, -⟩ := holds
    rw [sized, Int.toNat_natCast]
  · intro part rpc length
    cases rpc
    simp only [InstallSnapshot.Sized, InstallSnapshot.mk.injEq]
    constructor
    · rintro ⟨⟨⟨⟨⟨⟨⟨⟨⟨⟨⟨⟨-, rfl⟩, rfl⟩, rfl⟩, rfl⟩, rfl⟩, rfl⟩, rfl⟩, rfl⟩, rfl⟩, rfl⟩, rfl⟩, rfl⟩
      simp
    · rintro ⟨rfl, rfl, rfl, rfl, rfl, rfl, rfl, rfl, rfl, rfl, rfl, rfl⟩
      simp only [and_true]
      omega
  · intro negative rpc holds
    obtain ⟨⟨⟨⟨⟨⟨⟨⟨⟨⟨⟨sized, -⟩, -⟩, -⟩, -⟩, -⟩, rfl⟩, -⟩, -⟩, -⟩, -⟩, -⟩ := holds
    rw [sized] at negative
    omega

theorem installSnapshot_codec :
    Codec.Whole readInstallSnapshot installSnapshotBytes (fun rpc => rpc.Fits ∧ rpc.Sized) := by
  intro bytes rpc rest
  have accepts := installSnapshot_sized bytes rpc rest
  rw [and_comm (b := rpc.Fits)] at accepts
  rw [accepts, true_and]

/-! ### Entries -/

/-- What the wire can carry of an entry. -/
structure EntryFits (entry : Entry) : Prop where
  term : FitsInt 8 entry.term
  kind : entry.kind < 256 ^ 1
  cfgOld : IsMask entry.cfgOld
  cfgNew : IsMask entry.cfgNew
  cfgLearners : IsMask entry.cfgLearners

@[mk_iff]
structure EntryHead.Fits (head : EntryHead) : Prop where
  term : FitsInt 8 head.term
  kind : head.kind < 256 ^ 1
  size : head.size < 256 ^ 4
  cfgOld : IsMask head.cfgOld
  cfgNew : IsMask head.cfgNew
  cfgLearners : IsMask head.cfgLearners

def EntryHead.bytes (head : EntryHead) : List UInt8 :=
  leBytesInt 8 head.term ++ (leBytes 1 head.kind ++ (leBytes 4 head.size ++
    (kBufMask head.cfgOld ++ (kBufMask head.cfgNew ++ kBufMask head.cfgLearners))))

def headOf (entry : Entry) : EntryHead :=
  ⟨entry.term, entry.kind, entry.data.length, entry.cfgOld, entry.cfgNew, entry.cfgLearners⟩

def dataSize (entries : List Entry) : Nat := (entries.flatMap Entry.data).length

/-- One head at the front of the loop, with the size check in its place. -/
def readEntryHead (total : Nat) (bytes : List UInt8) : Option (EntryHead × List UInt8) := do
  let (term, rest) ← kReaderI64 bytes
  let (kind, rest) ← kReaderU8 rest
  let (size, rest) ← kReaderU32 rest
  if size > frameMax - total then none
  else
    let (cfgOld, rest) ← kReaderMask rest
    let (cfgNew, rest) ← kReaderMask rest
    let (cfgLearners, rest) ← kReaderMask rest
    return ({ term, kind, size, cfgOld, cfgNew, cfgLearners }, rest)

theorem readEntryHeads_succ (count total : Nat) (bytes : List UInt8) :
    readEntryHeads (count + 1) total bytes = do
      let (head, rest) ← readEntryHead total bytes
      let (heads, total, rest) ← readEntryHeads count (total + head.size) rest
      return (head :: heads, total, rest) := by
  simp only [readEntryHeads, readEntryHead, Option.bind_eq_bind, Option.bind_assoc]
  congr 1; funext p1
  congr 1; funext p2
  congr 1; funext p3
  split
  · rfl
  · simp only [Option.bind_assoc, Option.pure_def, Option.bind_some]

theorem entryHead_codec (total : Nat) :
    Codec (fun head : EntryHead => head.size ≤ frameMax - total) (readEntryHead total)
      EntryHead.bytes EntryHead.Fits := by
  refine Codec.restate ?_ fun head => head.fits_iff.symm
  refine Codec.field EntryHead.term (signed_codec 8) fun term => ?_
  refine Codec.field EntryHead.kind (unsigned_codec 1) fun kind => ?_
  refine Codec.field EntryHead.size (unsigned_codec 4) fun size => ?_
  refine Codec.guard (fun small => ?_) ?_
  · refine Codec.field EntryHead.cfgOld mask_codec fun cfgOld => ?_
    refine Codec.field EntryHead.cfgNew mask_codec fun cfgNew => ?_
    refine Codec.last EntryHead.cfgLearners mask_codec (fun _ _ => rfl) fun cfgLearners head => ?_
    cases head
    simp only [EntryHead.mk.injEq]
    constructor
    · rintro ⟨⟨⟨⟨⟨⟨-, rfl⟩, rfl⟩, rfl⟩, rfl⟩, rfl⟩, rfl⟩
      simp
    · rintro ⟨rfl, rfl, rfl, rfl, rfl, rfl⟩
      simp only [and_true]
      omega
  · rintro large head ⟨⟨⟨small, -⟩, -⟩, rfl⟩
    omega

/-- The loop reads as many heads as counted, as long as their data fits one
frame. -/
theorem readEntryHeads_iff {count total : Nat} (room : total ≤ frameMax) {bytes : List UInt8}
    {heads : List EntryHead} {size : Nat} {rest : List UInt8} :
    readEntryHeads count total bytes = some (heads, size, rest) ↔
      bytes = heads.flatMap EntryHead.bytes ++ rest ∧ heads.length = count ∧
      (∀ head ∈ heads, head.Fits) ∧ size = total + (heads.map EntryHead.size).sum ∧
      size ≤ frameMax := by
  induction count generalizing total bytes heads with
  | zero =>
    simp only [readEntryHeads, Option.some.injEq, Prod.mk.injEq, List.length_eq_zero_iff]
    constructor
    · rintro ⟨rfl, rfl, rfl⟩
      simpa using room
    · rintro ⟨rfl, rfl, -, rfl, -⟩
      simp
  | succ count ih =>
    simp only [readEntryHeads_succ, Option.bind_eq_bind, Option.bind_eq_some_iff, Option.pure_def,
      Option.some.injEq, Prod.mk.injEq, Prod.exists, entryHead_codec total _ _ _]
    constructor
    · rintro ⟨head, middle, ⟨rfl, small, fits⟩, others, all, tail, following, rfl, rfl, rfl⟩
      obtain ⟨rfl, length, othersFit, rfl, within⟩ := (ih (by omega)).mp following
      refine ⟨by simp, by simp [length], ?_, by simp; omega, within⟩
      intro other member
      rcases List.mem_cons.mp member with rfl | member
      · exact fits
      · exact othersFit other member
    · rintro ⟨rfl, length, fits, rfl, within⟩
      cases heads with
      | nil => cases length
      | cons head heads =>
        simp only [List.map_cons, List.sum_cons] at within ⊢
        refine ⟨head, heads.flatMap EntryHead.bytes ++ rest,
          ⟨by simp, by omega, fits head List.mem_cons_self⟩, heads, _, rest,
          (ih (by omega)).mpr ⟨rfl, by simpa using length, ?_, (Nat.add_assoc _ _ _).symm, within⟩,
          rfl, rfl, rfl⟩
        intro other member
        exact fits other (List.mem_cons_of_mem _ member)

theorem headOf_bytes (entries : List Entry) :
    (entries.map headOf).flatMap EntryHead.bytes = entries.flatMap entryHeadBytes := by
  rw [List.flatMap_map]
  rfl

theorem headOf_sizes (entries : List Entry) :
    ((entries.map headOf).map EntryHead.size).sum = dataSize entries := by
  induction entries with
  | nil => rfl
  | cons entry entries ih =>
    simp only [List.map_cons, List.sum_cons, dataSize, List.flatMap_cons, List.length_append] at ih ⊢
    rw [ih]
    rfl

/-- Cutting the joined data by the sizes gives the entries back. -/
theorem fillEntries_headOf (entries : List Entry) :
    fillEntries (entries.map headOf) (entries.flatMap Entry.data) = entries := by
  induction entries with
  | nil => rfl
  | cons entry entries ih => simp [fillEntries, headOf, ih]

theorem fillEntries_heads {heads : List EntryHead} {data : List UInt8}
    (size : data.length = (heads.map EntryHead.size).sum) :
    (fillEntries heads data).map headOf = heads ∧
      (fillEntries heads data).flatMap Entry.data = data := by
  induction heads generalizing data with
  | nil =>
    have empty : data = [] := List.length_eq_zero_iff.mp size
    simp [fillEntries, empty]
  | cons head heads ih =>
    simp only [List.map_cons, List.sum_cons] at size
    have rest : (data.drop head.size).length = (heads.map EntryHead.size).sum := by
      rw [List.length_drop]
      omega
    have later := ih rest
    simp only [fillEntries, List.map_cons, List.flatMap_cons, headOf, later.1, later.2,
      List.take_append_drop, and_true]
    rw [List.length_take, Nat.min_eq_left (by omega)]

/-- The entries of a message without the demand that nothing follows. -/
def readEntriesLoose (count : Nat) (bytes : List UInt8) : Option (List Entry × List UInt8) := do
  let (heads, total, rest) ← readEntryHeads count 0 bytes
  let (data, rest) ← kReaderBytes total rest
  return (fillEntries heads data, rest)

theorem readEntries_iff {count : Nat} {bytes rest : List UInt8} {entries : List Entry} :
    readEntries count bytes = some (entries, rest) ↔
      readEntriesLoose count bytes = some (entries, rest) ∧ rest = [] := by
  simp only [readEntries, readEntriesLoose, Option.bind_eq_bind, Option.bind_eq_some_iff,
    Prod.exists, Option.pure_def, Option.some.injEq, Prod.mk.injEq]
  constructor
  · rintro ⟨heads, total, middle, walked, taken⟩
    split at taken
    · cases taken
    · rename_i exactly
      simp only [Option.bind_eq_some_iff, Prod.exists, Option.some.injEq, Prod.mk.injEq] at taken
      obtain ⟨data, tail, read, rfl, rfl⟩ := taken
      have parts := Kynovo.Wal.Record.kReaderBytes_some read
      have lengths := congrArg List.length parts.1
      rw [List.length_append] at lengths
      have empty : tail = [] := List.length_eq_zero_iff.mp (by omega)
      exact ⟨⟨heads, total, middle, walked, data, tail, read, rfl, rfl⟩, empty⟩
  · rintro ⟨⟨heads, total, middle, walked, data, tail, read, rfl, rfl⟩, rfl⟩
    refine ⟨heads, total, middle, walked, ?_⟩
    have parts := Kynovo.Wal.Record.kReaderBytes_some read
    have lengths := congrArg List.length parts.1
    rw [List.length_append, List.length_nil] at lengths
    rw [if_neg (by omega)]
    simp [read]

/-- What the entries of one message may be. -/
structure EntriesFit (entries : List Entry) : Prop where
  each : ∀ entry ∈ entries, EntryFits entry
  data : dataSize entries ≤ frameMax

theorem entry_data_le {entries : List Entry} {entry : Entry} (member : entry ∈ entries) :
    entry.data.length ≤ dataSize entries := by
  obtain ⟨front, back, rfl⟩ := List.append_of_mem member
  simp only [dataSize, List.flatMap_append, List.flatMap_cons, List.length_append]
  omega

theorem entries_codec (count : Nat) :
    Codec.Whole (readEntriesLoose count) entriesBytes
      (fun entries => entries.length = count ∧ EntriesFit entries) := by
  intro bytes entries rest
  simp only [readEntriesLoose, Option.bind_eq_bind, Option.bind_eq_some_iff, Prod.exists,
    Option.pure_def, Option.some.injEq, Prod.mk.injEq, readEntryHeads_iff (Nat.zero_le frameMax),
    true_and, Nat.zero_add]
  constructor
  · rintro ⟨heads, total, middle, ⟨rfl, length, fits, rfl, within⟩, data, tail, read, rfl, rfl⟩
    obtain ⟨rfl, size⟩ := Kynovo.Wal.Record.kReaderBytes_some read
    obtain ⟨same, joined⟩ := fillEntries_heads size
    refine ⟨?_, ?_, ?_, ?_⟩
    · rw [entriesBytes, joined, ← headOf_bytes, same, List.append_assoc]
    · rw [← length, ← same, List.length_map, same]
    · intro entry member
      have inHeads : headOf entry ∈ heads := same ▸ List.mem_map_of_mem member
      have headFits := fits _ inHeads
      exact ⟨headFits.term, headFits.kind, headFits.cfgOld, headFits.cfgNew, headFits.cfgLearners⟩
    · rw [dataSize, joined, size]
      exact within
  · rintro ⟨rfl, rfl, fits⟩
    refine ⟨entries.map headOf, dataSize entries, entries.flatMap Entry.data ++ rest,
      ⟨?_, List.length_map _, ?_, (headOf_sizes entries).symm, fits.data⟩,
      entries.flatMap Entry.data, rest, Kynovo.Wal.Record.kReaderBytes_append _ _,
      fillEntries_headOf entries, rfl⟩
    · rw [headOf_bytes, entriesBytes, List.append_assoc]
    · intro head member
      obtain ⟨entry, inEntries, rfl⟩ := List.mem_map.mp member
      have each := fits.each entry inEntries
      have small := entry_data_le inEntries
      have within := fits.data
      have bound : frameMax < 256 ^ 4 := by decide
      exact ⟨each.term, each.kind, show entry.data.length < 256 ^ 4 by omega, each.cfgOld,
        each.cfgNew, each.cfgLearners⟩

/-! ### Messages -/

@[mk_iff]
structure AppendFits (rpc : AppendEntries) : Prop where
  term : FitsInt 8 rpc.term
  prevLogIndex : FitsInt 8 rpc.prevLogIndex
  prevLogTerm : FitsInt 8 rpc.prevLogTerm
  leaderCommit : FitsInt 8 rpc.leaderCommit
  leaderId : FitsInt 4 rpc.leaderId
  readContext : rpc.readContext < 256 ^ 8
  count : rpc.entries.length < 256 ^ 4
  entries : EntriesFit rpc.entries

/-- The number of entries the decoder takes. -/
def Counted (rpc : AppendEntries) : Prop := rpc.entries.length ≤ entryCountMax

theorem appendLoose_counted :
    Codec Counted (readAppendWith readEntriesLoose) appendEntriesBytes AppendFits := by
  refine Codec.restate ?_ fun rpc => (appendFits_iff rpc).symm
  refine Codec.field AppendEntries.term (signed_codec 8) fun term => ?_
  refine Codec.field AppendEntries.prevLogIndex (signed_codec 8) fun prevLogIndex => ?_
  refine Codec.field AppendEntries.prevLogTerm (signed_codec 8) fun prevLogTerm => ?_
  refine Codec.field AppendEntries.leaderCommit (signed_codec 8) fun leaderCommit => ?_
  refine Codec.field AppendEntries.leaderId (signed_codec 4) fun leaderId => ?_
  refine Codec.field AppendEntries.readContext (unsigned_codec 8) fun readContext => ?_
  refine Codec.field (fun rpc : AppendEntries => rpc.entries.length) (unsigned_codec 4)
    fun count => ?_
  refine Codec.guard (fun few => Codec.lastSized AppendEntries.entries ?_ (entries_codec count)
    (fun _ _ => rfl) ?_) ?_
  · rintro rpc ⟨-, length⟩
    exact length
  · intro entries rpc length
    cases rpc
    simp only [Counted, AppendEntries.mk.injEq]
    constructor
    · rintro ⟨⟨⟨⟨⟨⟨⟨⟨-, rfl⟩, rfl⟩, rfl⟩, rfl⟩, rfl⟩, rfl⟩, -⟩, rfl⟩
      simp
    · rintro ⟨rfl, rfl, rfl, rfl, rfl, rfl, rfl⟩
      simp only [and_true]
      omega
  · rintro many rpc ⟨⟨⟨⟨⟨⟨⟨few, -⟩, -⟩, -⟩, -⟩, -⟩, -⟩, rfl⟩
    exact absurd few (by unfold Counted; omega)

theorem appendLoose_codec :
    Codec.Whole (readAppendWith readEntriesLoose) appendEntriesBytes
      (fun rpc => AppendFits rpc ∧ Counted rpc) := by
  intro bytes rpc rest
  have accepts := appendLoose_counted bytes rpc rest
  rw [and_comm (b := AppendFits rpc)] at accepts
  rw [accepts, true_and]

/-- The reader of the source differs only in that nothing may follow. -/
theorem readAppendEntries_iff {bytes rest : List UInt8} {rpc : AppendEntries} :
    readAppendEntries bytes = some (rpc, rest) ↔
      readAppendWith readEntriesLoose bytes = some (rpc, rest) ∧ rest = [] := by
  simp only [readAppendEntries, readAppendWith, Option.bind_eq_bind, Option.bind_eq_some_iff,
    Option.pure_def, Prod.exists]
  constructor
  · rintro ⟨term, r1, h1, index, r2, h2, prevTerm, r3, h3, commit, r4, h4, leader, r5, h5, context,
      r6, h6, count, r7, h7, following⟩
    split at following
    · cases following
    · rename_i few
      simp only [Option.bind_eq_some_iff, Option.some.injEq, Prod.mk.injEq, Prod.exists,
        readEntries_iff] at following
      obtain ⟨entries, r8, ⟨h8, rfl⟩, rfl, rfl⟩ := following
      refine ⟨⟨term, r1, h1, index, r2, h2, prevTerm, r3, h3, commit, r4, h4, leader, r5, h5, context,
        r6, h6, count, r7, h7, ?_⟩, rfl⟩
      rw [if_neg few, h8]
      rfl
  · rintro ⟨⟨term, r1, h1, index, r2, h2, prevTerm, r3, h3, commit, r4, h4, leader, r5, h5, context,
      r6, h6, count, r7, h7, following⟩, rfl⟩
    refine ⟨term, r1, h1, index, r2, h2, prevTerm, r3, h3, commit, r4, h4, leader, r5, h5, context,
      r6, h6, count, r7, h7, ?_⟩
    split at following
    · cases following
    · rename_i few
      simp only [Option.bind_eq_some_iff, Option.some.injEq, Prod.mk.injEq, Prod.exists] at following
      obtain ⟨entries, r8, h8, rfl, rfl⟩ := following
      rw [if_neg few, readEntries_iff.mpr ⟨h8, rfl⟩]
      rfl

def Rpc.Fits : Rpc → Prop
  | .requestVote rpc => rpc.Fits
  | .requestVoteResult result => result.Fits
  | .appendEntries rpc => AppendFits rpc ∧ Counted rpc
  | .appendEntriesResult result => result.Fits
  | .installSnapshot rpc => rpc.Fits ∧ rpc.Sized
  | .installSnapshotResult result => InstallSnapshotResult.Fits result
  | .readIndex rpc => ReadIndexReq.Fits rpc
  | .readIndexResult result => ReadIndexResult.Fits result
  | .timeoutNow rpc => TimeoutNow.Fits rpc

/-- The switch with the loose reader of AppendEntries. -/
def readRpcLoose (type : Nat) (bytes : List UInt8) : Option (Rpc × List UInt8) :=
  if type = 3 then (readAppendWith readEntriesLoose bytes).map fun p => (.appendEntries p.1, p.2)
  else readRpc type bytes

theorem readRpc_iff {type : Nat} {bytes : List UInt8} {rpc : Rpc} :
    readRpc type bytes = some (rpc, []) ↔ readRpcLoose type bytes = some (rpc, []) := by
  unfold readRpcLoose
  split
  · rename_i append
    subst append
    simp only [readRpc, Option.map_eq_some_iff, Prod.exists, Prod.mk.injEq, readAppendEntries_iff]
    constructor
    · rintro ⟨entries, tail, ⟨read, rfl⟩, same, -⟩
      exact ⟨entries, [], read, same, rfl⟩
    · rintro ⟨entries, tail, read, same, rfl⟩
      exact ⟨entries, [], ⟨read, rfl⟩, same, rfl⟩
  · rfl

theorem rpc_codec (type : Nat) :
    Codec.Whole (readRpcLoose type) rpcBytes (fun rpc => rpc.type = type ∧ rpc.Fits) := by
  intro bytes rpc rest
  constructor
  · intro accepted
    unfold readRpcLoose at accepted
    split at accepted
    · obtain ⟨part, rfl, split, fits⟩ := appendLoose_codec.wrapped.mp accepted
      exact ⟨split, trivial, by simp [Rpc.type, *], fits⟩
    · unfold readRpc at accepted
      split at accepted
      · obtain ⟨part, rfl, split, fits⟩ := requestVote_codec.wrapped.mp accepted
        exact ⟨split, trivial, rfl, fits⟩
      · obtain ⟨part, rfl, split, fits⟩ := requestVoteResult_codec.wrapped.mp accepted
        exact ⟨split, trivial, rfl, fits⟩
      · exact absurd rfl ‹_›
      · obtain ⟨part, rfl, split, fits⟩ := appendEntriesResult_codec.wrapped.mp accepted
        exact ⟨split, trivial, rfl, fits⟩
      · obtain ⟨part, rfl, split, fits⟩ := installSnapshot_codec.wrapped.mp accepted
        exact ⟨split, trivial, rfl, fits⟩
      · obtain ⟨part, rfl, split, fits⟩ := installSnapshotResult_codec.wrapped.mp accepted
        exact ⟨split, trivial, rfl, fits⟩
      · obtain ⟨part, rfl, split, fits⟩ := readIndex_codec.wrapped.mp accepted
        exact ⟨split, trivial, rfl, fits⟩
      · obtain ⟨part, rfl, split, fits⟩ := readIndexResult_codec.wrapped.mp accepted
        exact ⟨split, trivial, rfl, fits⟩
      · obtain ⟨part, rfl, split, fits⟩ := timeoutNow_codec.wrapped.mp accepted
        exact ⟨split, trivial, rfl, fits⟩
      · cases accepted
  · rintro ⟨rfl, -, rfl, fits⟩
    cases rpc with
    | requestVote rpc => exact requestVote_codec.wrapped.mpr ⟨rpc, rfl, rfl, fits⟩
    | requestVoteResult result => exact requestVoteResult_codec.wrapped.mpr ⟨result, rfl, rfl, fits⟩
    | appendEntries rpc => exact appendLoose_codec.wrapped.mpr ⟨rpc, rfl, rfl, fits⟩
    | appendEntriesResult result =>
      exact appendEntriesResult_codec.wrapped.mpr ⟨result, rfl, rfl, fits⟩
    | installSnapshot rpc => exact installSnapshot_codec.wrapped.mpr ⟨rpc, rfl, rfl, fits⟩
    | installSnapshotResult result =>
      exact installSnapshotResult_codec.wrapped.mpr ⟨result, rfl, rfl, fits⟩
    | readIndex rpc => exact readIndex_codec.wrapped.mpr ⟨rpc, rfl, rfl, fits⟩
    | readIndexResult result => exact readIndexResult_codec.wrapped.mpr ⟨result, rfl, rfl, fits⟩
    | timeoutNow rpc => exact timeoutNow_codec.wrapped.mpr ⟨rpc, rfl, rfl, fits⟩

@[mk_iff]
structure PeerMessage.Fits (message : PeerMessage) : Prop where
  type : message.rpc.type < 256 ^ 1
  sender : FitsInt 4 message.sender
  target : FitsInt 4 message.target
  term : FitsInt 8 message.term
  rpc : message.rpc.Fits

/-- A message and what follows it. -/
def readMessage (bytes : List UInt8) : Option (PeerMessage × List UInt8) := do
  let (type, rest) ← kReaderU8 bytes
  let (sender, rest) ← kReaderI32 rest
  let (target, rest) ← kReaderI32 rest
  let (term, rest) ← kReaderI64 rest
  let (rpc, rest) ← readRpcLoose type rest
  return ({ sender, target, term, rpc }, rest)

/-- The fields in the order they are written. -/
def messageBytes (message : PeerMessage) : List UInt8 :=
  leBytes 1 message.rpc.type ++ (leBytesInt 4 message.sender ++ (leBytesInt 4 message.target ++
    (leBytesInt 8 message.term ++ rpcBytes message.rpc)))

theorem peerBytes_eq (message : PeerMessage) : peerBytes message = messageBytes message := by
  simp only [peerBytes, peerHeadBytes, messageBytes, List.append_assoc]

theorem message_codec : Codec.Whole readMessage peerBytes PeerMessage.Fits := by
  have layout : peerBytes = messageBytes := funext peerBytes_eq
  rw [layout]
  refine Codec.restate ?_ fun message => message.fits_iff.symm
  refine Codec.field (fun message : PeerMessage => message.rpc.type) (unsigned_codec 1)
    fun type => ?_
  refine Codec.field PeerMessage.sender (signed_codec 4) fun sender => ?_
  refine Codec.field PeerMessage.target (signed_codec 4) fun target => ?_
  refine Codec.field PeerMessage.term (signed_codec 8) fun term => ?_
  refine Codec.lastSized PeerMessage.rpc ?_ (rpc_codec type) (fun _ _ => rfl) ?_
  · rintro message ⟨⟨⟨⟨-, type⟩, -⟩, -⟩, -⟩
    exact type
  · intro rpc message kind
    cases message
    simp only [PeerMessage.mk.injEq, true_and]
    constructor
    · rintro ⟨⟨⟨⟨-, rfl⟩, rfl⟩, rfl⟩, rfl⟩
      simp
    · rintro ⟨rfl, rfl, rfl, rfl⟩
      simp [kind]

/-- The decoder accepts exactly the layouts of messages between valid ids. -/
theorem kPeerDecode_iff {bytes : List UInt8} {message : PeerMessage} :
    kPeerDecode bytes = some message ↔
      readMessage bytes = some (message, []) ∧ 0 < message.sender ∧ 0 < message.target := by
  simp only [kPeerDecode, readMessage, Option.bind_eq_bind, Option.bind_eq_some_iff,
    Option.pure_def, Prod.exists, Option.some.injEq, Prod.mk.injEq]
  constructor
  · rintro ⟨type, r1, h1, sender, r2, h2, target, r3, h3, term, r4, h4, rpc, r5, h5, checked⟩
    split at checked
    · cases checked
    · rename_i passes
      cases checked
      simp only [not_or, not_not, not_le] at passes
      obtain ⟨rfl, positive⟩ := passes
      exact ⟨⟨type, r1, h1, sender, r2, h2, target, r3, h3, term, r4, h4, rpc, [],
        readRpc_iff.mp h5, rfl, rfl⟩, positive⟩
  · rintro ⟨⟨type, r1, h1, sender, r2, h2, target, r3, h3, term, r4, h4, rpc, r5, h5, rfl, rfl⟩,
      positive⟩
    refine ⟨type, r1, h1, sender, r2, h2, target, r3, h3, term, r4, h4, rpc, [],
      readRpc_iff.mpr h5, ?_⟩
    rw [if_neg]
    simp only [not_or, not_not, not_le]
    exact ⟨trivial, positive⟩

/-- An accepted input is a whole layout, so none of its proper beginnings and
none of its extensions is accepted. -/
theorem kPeerDecode_exact {bytes : List UInt8} {message : PeerMessage}
    (accepted : kPeerDecode bytes = some message) :
    bytes = peerBytes message ∧
      (∀ extra, extra ≠ [] → kPeerDecode (bytes ++ extra) = none) ∧
      ∀ length, length < bytes.length → kPeerDecode (bytes.take length) = none := by
  obtain ⟨read, -⟩ := kPeerDecode_iff.mp accepted
  obtain ⟨layout, -⟩ := message_codec.accepts read
  rw [List.append_nil] at layout
  refine ⟨layout, ?_, ?_⟩
  · intro extra some_extra
    by_contra taken
    obtain ⟨other, decoded⟩ := Option.ne_none_iff_exists'.mp taken
    exact some_extra (message_codec.rest_unique read (kPeerDecode_iff.mp decoded).1)
  · intro length short
    by_contra taken
    obtain ⟨other, decoded⟩ := Option.ne_none_iff_exists'.mp taken
    exact message_codec.part_unread read short (kPeerDecode_iff.mp decoded).1

/-! ## What is sent -/

theorem kBufMask_length (ids : List Int) : (kBufMask ids).length = 4 + 4 * ids.length := by
  induction ids with
  | nil => rfl
  | cons id ids ih =>
    simp only [kBufMask, List.length_append, leBytes_length, List.flatMap_cons, leBytesInt_length,
      List.length_cons] at ih ⊢
    omega

theorem entryHeadBytes_length (entry : Entry) : (entryHeadBytes entry).length = wireSize entry := by
  simp only [entryHeadBytes, List.length_append, leBytesInt_length, leBytes_length, kBufMask_length,
    wireSize]
  omega

theorem entriesBytes_cons_length (entry : Entry) (entries : List Entry) :
    (entriesBytes (entry :: entries)).length =
      wireSize entry + entry.data.length + (entriesBytes entries).length := by
  simp only [entriesBytes, List.flatMap_cons, List.length_append, entryHeadBytes_length]
  omega

/-- The encoding loop keeps a beginning of the entries that fits the frame, and
at least the first one if that fits. -/
theorem fitting_spec {entries : List Entry} (masks : ∀ entry ∈ entries, entryMasksFit entry = true)
    (len size : Nat) (room : len + size ≤ frameMax) :
    ∃ kept, fitting len size entries = some (entries.take kept) ∧
      len + size + (entriesBytes (entries.take kept)).length ≤ frameMax ∧
      ∀ first ∈ entries.head?, len + wireSize first + size + first.data.length ≤ frameMax →
        0 < kept := by
  induction entries generalizing len size with
  | nil => exact ⟨0, rfl, by simpa [entriesBytes] using room, by simp⟩
  | cons entry entries ih =>
    have legal := masks entry List.mem_cons_self
    by_cases fits : len + wireSize entry + size + entry.data.length ≤ frameMax
    · obtain ⟨kept, taken, within, -⟩ := ih
        (fun other member => masks other (List.mem_cons_of_mem _ member))
        (len + wireSize entry) (size + entry.data.length) (by omega)
      refine ⟨kept + 1, ?_, ?_, fun _ _ _ => Nat.succ_pos kept⟩
      · simp only [fitting, legal, Bool.not_true, Bool.false_eq_true, if_false,
          if_neg (Nat.not_lt.mpr fits), taken, Option.map_some, List.take_succ_cons]
      · rw [List.take_succ_cons, entriesBytes_cons_length]
        omega
    · refine ⟨0, ?_, by simpa [entriesBytes] using room, ?_⟩
      · simp only [fitting, legal, Bool.not_true, Bool.false_eq_true, if_false,
          if_pos (Nat.lt_of_not_le fits), List.take_zero]
      · intro first head
        cases head
        exact fun first => absurd first fits

/-- The bytes in front of the entries of an AppendEntries message. -/
def entriesStart : Nat := 65

/-- The messages a node can send: every value fits its C type and every id set
is small enough; the first entry of an AppendEntries message fits a frame, and a
snapshot message fits one with its chunk. -/
def Rpc.Sendable : Rpc → Prop
  | .appendEntries rpc => AppendFits { rpc with entries := [] } ∧
      (∀ entry ∈ rpc.entries, EntryFits entry) ∧ rpc.entries.length ≤ entryCountMax ∧
      ∀ first ∈ rpc.entries.head?, entriesStart + wireSize first + first.data.length ≤ frameMax
  | .installSnapshot rpc => { rpc with snapshotDone := normalFlag rpc.snapshotDone }.Fits ∧
      rpc.Sized ∧ 17 + (installSnapshotBytes rpc).length ≤ frameMax
  | rpc => rpc.normal.Fits

structure PeerMessage.Sendable (message : PeerMessage) : Prop where
  positiveSender : 0 < message.sender
  positiveTarget : 0 < message.target
  sender : FitsInt 4 message.sender
  target : FitsInt 4 message.target
  term : FitsInt 8 message.term
  rpc : message.rpc.Sendable

/-- Only the entries of an AppendEntries message can be cut. -/
def Rpc.entries : Rpc → List Entry
  | .appendEntries rpc => rpc.entries
  | _ => []

def Rpc.keep (kept : Nat) : Rpc → Rpc
  | .appendEntries rpc => .appendEntries { rpc with entries := rpc.entries.take kept }
  | rpc => rpc

def PeerMessage.keep (kept : Nat) (message : PeerMessage) : PeerMessage :=
  { message with rpc := message.rpc.keep kept }

theorem peerHeadBytes_length (message : PeerMessage) : (peerHeadBytes message).length = 17 := by
  simp [peerHeadBytes]

theorem type_small (rpc : Rpc) : rpc.type < 256 ^ 1 := by
  cases rpc <;> simp [Rpc.type]

theorem sent_type (rpc : Rpc) (kept : Nat) : (rpc.normal.keep kept).type = rpc.type := by
  cases rpc <;> rfl

theorem appendEntriesBytes_length (rpc : AppendEntries) :
    (appendEntriesBytes rpc).length = 48 + (entriesBytes rpc.entries).length := by
  simp only [appendEntriesBytes, List.length_append, leBytesInt_length, leBytes_length]
  omega

theorem entryMasksFit_of_fits {entry : Entry} (fits : EntryFits entry) :
    entryMasksFit entry = true := by
  simp [entryMasksFit, fits.cfgOld.1, fits.cfgNew.1, fits.cfgLearners.1]

theorem dataSize_le_entriesBytes (entries : List Entry) :
    dataSize entries ≤ (entriesBytes entries).length := by
  rw [entriesBytes, List.length_append]
  exact Nat.le_add_left _ _

theorem encodeAppend {rpc : AppendEntries} (sendable : (Rpc.appendEntries rpc).Sendable) :
    ∃ kept, encodeRpc 17 (.appendEntries rpc) =
        some (appendEntriesBytes { rpc with entries := rpc.entries.take kept }) ∧
      (Rpc.appendEntries { rpc with entries := rpc.entries.take kept }).Fits ∧
      17 + (appendEntriesBytes { rpc with entries := rpc.entries.take kept }).length ≤ frameMax ∧
      (rpc.entries ≠ [] → 0 < kept) := by
  obtain ⟨head, each, few, first⟩ := sendable
  have limit : frameMax = 1048576 := rfl
  have start : 17 + (appendEntriesBytes { rpc with entries := [] }).length = entriesStart := by
    rw [appendEntriesBytes_length]
    rfl
  obtain ⟨kept, taken, within, some_kept⟩ := fitting_spec
    (fun entry member => entryMasksFit_of_fits (each entry member)) entriesStart 0
    (by unfold entriesStart; omega)
  have nonempty : rpc.entries ≠ [] → 0 < kept := by
    intro some_entries
    obtain ⟨entry, entries, shape⟩ := List.exists_cons_of_ne_nil some_entries
    have isHead : entry ∈ rpc.entries.head? := by simp [shape]
    exact some_kept entry isHead (by have := first entry isHead; omega)
  have shorter : (rpc.entries.take kept).length ≤ entryCountMax := by
    rw [List.length_take]
    omega
  have data := dataSize_le_entriesBytes (rpc.entries.take kept)
  refine ⟨kept, ?_, ⟨⟨head.term, head.prevLogIndex, head.prevLogTerm, head.leaderCommit,
    head.leaderId, head.readContext, ?_, ⟨?_, ?_⟩⟩, shorter⟩, ?_, nonempty⟩
  · have several : ¬ (rpc.entries ≠ [] ∧ rpc.entries.take kept = []) := by
      rintro ⟨some_entries, none_kept⟩
      have positive := nonempty some_entries
      rcases List.take_eq_nil_iff.mp none_kept with zero | empty
      · omega
      · exact some_entries empty
    simp only [encodeRpc, if_neg (Nat.not_lt.mpr few), start, taken, Option.bind_eq_bind,
      Option.bind_some, if_neg several]
    rfl
  · have bound : entryCountMax < 256 ^ 4 := by decide
    exact Nat.lt_of_le_of_lt shorter bound
  · intro entry member
    exact each entry (List.mem_of_mem_take member)
  · show dataSize (rpc.entries.take kept) ≤ frameMax
    omega
  · rw [appendEntriesBytes_length]
    unfold entriesStart at within
    show 17 + (48 + (entriesBytes (rpc.entries.take kept)).length) ≤ frameMax
    omega

/-- What the encoder writes for a message that can be sent is the layout of the
message with its flags normal and its entries cut. -/
theorem encodeRpc_spec {rpc : Rpc} (sendable : rpc.Sendable) :
    ∃ kept, encodeRpc 17 rpc.normal = some (rpcBytes (rpc.normal.keep kept)) ∧
      (rpc.normal.keep kept).Fits ∧ 17 + (rpcBytes (rpc.normal.keep kept)).length ≤ frameMax ∧
      (rpc.entries ≠ [] → 0 < kept) := by
  have limit : frameMax = 1048576 := rfl
  cases rpc with
  | appendEntries rpc => exact encodeAppend sendable
  | installSnapshot rpc =>
    obtain ⟨fits, sized, within⟩ := sendable
    have same : (installSnapshotBytes { rpc with snapshotDone := normalFlag rpc.snapshotDone }).length =
        (installSnapshotBytes rpc).length := by
      simp [installSnapshotBytes, flagBytes]
    have chunk : rpc.snapshotData.length ≤ (installSnapshotBytes rpc).length := by
      simp only [installSnapshotBytes, List.length_append]
      omega
    refine ⟨0, ?_, ⟨fits, sized⟩, ?_, fun none => absurd rfl none⟩
    · have legal : ¬ (rpc.snapshotCfgOld.length > maxNodes ∨ rpc.snapshotCfgNew.length > maxNodes ∨
          rpc.snapshotCfgLearners.length > maxNodes) := by
        have old := fits.snapshotCfgOld.1
        have new := fits.snapshotCfgNew.1
        have learners := fits.snapshotCfgLearners.1
        simp only at old new learners
        omega
      have size : ¬ (rpc.snapshotChunkSize < 0 ∨ rpc.snapshotChunkSize > frameMax) := by
        unfold InstallSnapshot.Sized at sized
        omega
      simp only [Rpc.normal, encodeRpc, if_neg legal, if_neg size]
      rfl
    · show 17 + (installSnapshotBytes _).length ≤ frameMax
      rw [same]
      exact within
  | requestVote rpc =>
    refine ⟨0, rfl, sendable, ?_, fun none => absurd rfl none⟩
    simp [Rpc.normal, Rpc.keep, rpcBytes, requestVoteBytes, flagBytes, limit]
  | requestVoteResult result =>
    refine ⟨0, rfl, sendable, ?_, fun none => absurd rfl none⟩
    simp [Rpc.normal, Rpc.keep, rpcBytes, requestVoteResultBytes, flagBytes, limit]
  | appendEntriesResult result =>
    refine ⟨0, rfl, sendable, ?_, fun none => absurd rfl none⟩
    simp [Rpc.normal, Rpc.keep, rpcBytes, appendEntriesResultBytes, flagBytes, limit]
  | installSnapshotResult result =>
    refine ⟨0, rfl, sendable, ?_, fun none => absurd rfl none⟩
    simp [Rpc.normal, Rpc.keep, rpcBytes, installSnapshotResultBytes, limit]
  | readIndex rpc =>
    refine ⟨0, rfl, sendable, ?_, fun none => absurd rfl none⟩
    simp [Rpc.normal, Rpc.keep, rpcBytes, readIndexBytes, limit]
  | readIndexResult result =>
    refine ⟨0, rfl, sendable, ?_, fun none => absurd rfl none⟩
    simp [Rpc.normal, Rpc.keep, rpcBytes, readIndexResultBytes, limit]
  | timeoutNow rpc =>
    refine ⟨0, rfl, sendable, ?_, fun none => absurd rfl none⟩
    simp [Rpc.normal, Rpc.keep, rpcBytes, timeoutNowBytes, limit]

/-- A message that can be sent is encoded, and decoding gives it back with its
flags normal and at most its entries cut, never down to none; the decoder
accepts nothing but whole layouts. -/
theorem peer_messages_round_trip (message : PeerMessage) (sendable : message.Sendable) :
    (∃ payload kept, kPeerEncode message = some payload ∧ payload.length ≤ frameMax ∧
      kPeerDecode payload = some (message.normal.keep kept) ∧
      (message.rpc.entries ≠ [] → 0 < kept)) ∧
    ∀ bytes decoded, kPeerDecode bytes = some decoded → bytes = peerBytes decoded ∧
      (∀ extra, extra ≠ [] → kPeerDecode (bytes ++ extra) = none) ∧
      ∀ length, length < bytes.length → kPeerDecode (bytes.take length) = none := by
  refine ⟨?_, fun bytes decoded accepted => kPeerDecode_exact accepted⟩
  obtain ⟨kept, encoded, fits, within, nonempty⟩ := encodeRpc_spec sendable.rpc
  have layout : peerBytes (message.normal.keep kept) =
      peerHeadBytes message ++ rpcBytes (message.rpc.normal.keep kept) := by
    simp only [peerBytes, peerHeadBytes, PeerMessage.keep, PeerMessage.normal, sent_type]
  have messageFits : (message.normal.keep kept).Fits :=
    ⟨type_small _, sendable.sender, sendable.target, sendable.term, fits⟩
  have size : (peerHeadBytes message ++ rpcBytes (message.rpc.normal.keep kept)).length ≤
      frameMax := by
    rw [List.length_append, peerHeadBytes_length]
    exact within
  refine ⟨peerBytes (message.normal.keep kept), kept, ?_, by rw [layout]; exact size, ?_, nonempty⟩
  · simp only [kPeerEncode, peerHeadBytes_length, encoded, Option.bind_eq_bind, Option.bind_some,
      if_neg (Nat.not_lt.mpr size), layout]
    rfl
  · have read := message_codec.reads messageFits []
    rw [List.append_nil] at read
    exact kPeerDecode_iff.mpr ⟨read, sendable.positiveSender, sendable.positiveTarget⟩

/-- A message with a command and a configuration. -/
def twoEntries : PeerMessage :=
  ⟨1, 2, 5, .appendEntries ⟨5, 3, 4, 3, 7,
    [⟨5, 0, [1, 2], [], [], []⟩, ⟨5, 2, [], [1, 2], [2, 3], [4]⟩], 1⟩⟩

theorem two_entries_round_trip :
    ∃ payload kept, kPeerEncode twoEntries = some payload ∧ payload.length ≤ frameMax ∧
      kPeerDecode payload = some (twoEntries.normal.keep kept) ∧
      (twoEntries.rpc.entries ≠ [] → 0 < kept) := by
  have sendable : twoEntries.Sendable := by
    refine ⟨by decide, by decide, by decide, by decide, by decide, ?_, ?_, by decide, ?_⟩
    · exact ⟨by decide, by decide, by decide, by decide, by decide, by decide, by decide,
        ⟨by simp, by decide⟩⟩
    · intro entry member
      rcases List.mem_pair.mp member with rfl | rfl
      · exact ⟨by decide, by decide, ⟨by decide, by decide⟩, ⟨by decide, by decide⟩,
          ⟨by decide, by decide⟩⟩
      · exact ⟨by decide, by decide, ⟨by decide, by decide⟩, ⟨by decide, by decide⟩,
          ⟨by decide, by decide⟩⟩
    · rintro first isFirst
      cases isFirst
      decide
  exact (peer_messages_round_trip twoEntries sendable).1

theorem kPeerEncode_many {rpc : AppendEntries} (many : rpc.entries.length > entryCountMax)
    (sender target term : Int) : kPeerEncode ⟨sender, target, term, .appendEntries rpc⟩ = none := by
  simp only [kPeerEncode, Rpc.normal, encodeRpc, if_pos many]
  rfl

theorem kPeerEncode_first {rpc : AppendEntries} {entry : Entry} {rest : List Entry}
    (entries : rpc.entries = entry :: rest)
    (large : entriesStart + wireSize entry + entry.data.length > frameMax)
    (sender target term : Int) : kPeerEncode ⟨sender, target, term, .appendEntries rpc⟩ = none := by
  have start : 17 + (appendEntriesBytes { rpc with entries := [] }).length = entriesStart := by
    rw [appendEntriesBytes_length]
    rfl
  have tooLarge : entriesStart + wireSize entry + 0 + entry.data.length > frameMax := large
  simp only [kPeerEncode, Rpc.normal, encodeRpc, peerHeadBytes_length, start, entries]
  by_cases many : (entry :: rest).length > entryCountMax
  · rw [if_pos many]
    rfl
  · rw [if_neg many, fitting, if_pos tooLarge]
    split <;> rfl

def emptyEntry : Entry := ⟨1, 0, [], [], [], []⟩
def sixteen : List Int := [1, 2, 3, 4, 5, 6, 7, 8, 9, 10, 11, 12, 13, 14, 15, 16]
def largestEntry : Entry := ⟨1, 2, List.replicate raftCommandMax 0, sixteen, sixteen, sixteen⟩

def tooMany : AppendEntries := ⟨1, 0, 0, 0, 0, List.replicate (entryCountMax + 1) emptyEntry, 1⟩
def tooLarge : AppendEntries := ⟨1, 0, 0, 0, 0, [largestEntry], 1⟩

/-- Neither one entry too many nor an entry of the largest size with full id sets
is encoded. -/
theorem entries_refused :
    ((∀ entry ∈ tooMany.entries, EntryFits entry ∧ entry.data.length ≤ raftCommandMax) ∧
      kPeerEncode ⟨1, 2, 1, .appendEntries tooMany⟩ = none) ∧
    ((∀ entry ∈ tooLarge.entries, EntryFits entry ∧ entry.data.length ≤ raftCommandMax) ∧
      kPeerEncode ⟨1, 2, 1, .appendEntries tooLarge⟩ = none) := by
  have sixteenMask : IsMask sixteen := ⟨by decide, by decide⟩
  have noMask : IsMask [] := ⟨by decide, by decide⟩
  refine ⟨⟨?_, ?_⟩, ?_, ?_⟩
  · intro entry member
    have isEmpty : entry = emptyEntry := List.eq_of_mem_replicate member
    subst isEmpty
    exact ⟨⟨by decide, by decide, noMask, noMask, noMask⟩, Nat.zero_le _⟩
  · apply kPeerEncode_many
    rw [tooMany, List.length_replicate]
    exact Nat.lt_succ_self _
  · intro entry member
    have isLargest : entry = largestEntry := List.mem_singleton.mp member
    subst isLargest
    refine ⟨⟨by decide, by decide, sixteenMask, sixteenMask, sixteenMask⟩, ?_⟩
    rw [largestEntry, List.length_replicate]
  · have shape : tooLarge.entries = largestEntry :: [] := rfl
    apply kPeerEncode_first shape
    have size : largestEntry.data.length = raftCommandMax := List.length_replicate
    have wire : wireSize largestEntry = 217 := by
      simp [wireSize, largestEntry, sixteen]
    rw [size, wire]
    decide

end Kynovo.Proto.PeerCodec
