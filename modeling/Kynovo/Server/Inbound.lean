import Kynovo.Lib.FileBytes
import Kynovo.Raft.Recv
import Kynovo.Raft.Advance
import Kynovo.Server.Command

/-! Inbound snapshot chunks. The frame handler writes a chunk into the snapshot
file its own index names and only then hands the message to the protocol, so what
the file system keeps does not depend on what the protocol decides. -/
namespace Kynovo.Server.Inbound
open Kynovo.Lib.FileBytes
open Kynovo.Raft
open Kynovo.Server.Command

/-- A decoded InstallSnapshot frame with the bytes of its chunk. -/
structure SnapshotFrame where
  sender : Int
  target : Int
  rpc : InstallSnapshot
  data : List UInt8
  sized : (data.length : Int) = rpc.snapshotChunkSize

/-- The node and the snapshot files by index; a missing file is empty. -/
structure Host where
  node : Node
  files : Int → List UInt8

def setFile (files : Int → List UInt8) (index : Int) (bytes : List UInt8) : Int → List UInt8 :=
  fun other => if other = index then bytes else files other

/-- The chunk has an index, an offset and a size the file layer takes. -/
def writable (frame : SnapshotFrame) : Bool :=
  decide (0 ≤ frame.rpc.snapshotLastIndex ∧ 0 ≤ frame.rpc.snapshotOffset ∧
    frame.rpc.snapshotChunkSize ≤ frameMax)

/-- The target file with the chunk in it. -/
def chunkWritten (files : Int → List UInt8) (frame : SnapshotFrame) : List UInt8 :=
  overlay (files frame.rpc.snapshotLastIndex) frame.rpc.snapshotOffset.toNat frame.data

/-- A last chunk must end its file. -/
def leavesTail (files : Int → List UInt8) (frame : SnapshotFrame) : Bool :=
  frame.rpc.snapshotDone && (readAt (chunkWritten files frame)
    (frame.rpc.snapshotOffset.toNat + frame.data.length) 1).isSome

/-- The files after the write, and whether it succeeded. A file with bytes behind
its last chunk is unlinked. -/
def kServerWriteInboundSnapshot (files : Int → List UInt8) (frame : SnapshotFrame) :
    (Int → List UInt8) × Bool :=
  if !writable frame then (files, false)
  else if leavesTail files frame then (setFile files frame.rpc.snapshotLastIndex [], false)
  else (setFile files frame.rpc.snapshotLastIndex (chunkWritten files frame), true)

/-- An InstallSnapshot frame from the peer `peerId` of a connection. -/
def kServerPeerFrame (host : Host) (self peerId : Int) (frame : SnapshotFrame) : Host × Int :=
  if frame.sender ≠ peerId ∨ frame.target ≠ self then (host, -1)
  else
    match kServerWriteInboundSnapshot host.files frame with
    | (files, false) => ({ host with files }, -1)
    | (files, true) =>
      let (node, rc) := raftRecvfromPeer host.node
        { sender := frame.sender, target := frame.target, rpc := .installSnapshot frame.rpc }
      ({ node, files }, rc)

/-! ## What a frame changes -/

/-- A snapshot is being received, or was; before the first both fields are zero. -/
def receiving (r : Node) : Bool :=
  decide (r.snapshotRecv.lastIndex ≠ 0) || decide (r.snapshotRecv.size ≠ 0)

/-- The files recovery of the current log may need and the one of the transfer in
progress. -/
def Needed (newest previous : Int) (r : Node) (index : Int) : Prop :=
  index = newest ∨ index = previous ∨ (receiving r = true ∧ index = r.snapshotRecv.lastIndex)

/-- A frame that cannot hurt: it is not from the connection's peer or not for this
node, it is refused before the write, its file is not needed, or its bytes stand
in that file already and, for a last chunk, end it. -/
def Spares (newest previous : Int) (host : Host) (self peerId : Int) (frame : SnapshotFrame) :
    Prop :=
  (frame.sender ≠ peerId ∨ frame.target ≠ self) ∨ writable frame = false ∨
    ¬Needed newest previous host.node frame.rpc.snapshotLastIndex ∨
    ((host.files frame.rpc.snapshotLastIndex).drop frame.rpc.snapshotOffset.toNat).take
        frame.data.length = frame.data ∧
      (frame.rpc.snapshotDone = true → (host.files frame.rpc.snapshotLastIndex).length ≤
        frame.rpc.snapshotOffset.toNat + frame.data.length)

/-- Every needed file is byte for byte what it was. -/
def Unharmed (newest previous : Int) (before after : Host) : Prop :=
  ∀ index, Needed newest previous before.node index → after.files index = before.files index

theorem setFile_self (files : Int → List UInt8) (index : Int) (bytes : List UInt8) :
    setFile files index bytes index = bytes := by
  simp [setFile]

theorem setFile_other (files : Int → List UInt8) {index other : Int} (bytes : List UInt8)
    (different : other ≠ index) : setFile files index bytes other = files other := by
  simp [setFile, different]

/-- The files after a frame, whatever the protocol answers. -/
theorem kServerPeerFrame_files (host : Host) (self peerId : Int) (frame : SnapshotFrame) :
    (kServerPeerFrame host self peerId frame).1.files =
      if frame.sender ≠ peerId ∨ frame.target ≠ self then host.files
      else (kServerWriteInboundSnapshot host.files frame).1 := by
  unfold kServerPeerFrame
  split
  · rfl
  · split
    · next files shape => rw [shape]
    · next files shape => rw [shape]

/-- Bytes behind a last chunk were in the file before the chunk was written. -/
theorem leavesTail_iff (files : Int → List UInt8) (frame : SnapshotFrame) :
    leavesTail files frame = true ↔ frame.rpc.snapshotDone = true ∧
      frame.rpc.snapshotOffset.toNat + frame.data.length <
        (chunkWritten files frame).length := by
  unfold leavesTail readAt
  rw [Bool.and_eq_true]
  constructor
  · rintro ⟨last, found⟩
    split at found
    · next inside => exact ⟨last, by omega⟩
    · cases found
  · rintro ⟨last, longer⟩
    rw [if_pos (by omega)]
    exact ⟨last, rfl⟩

/-- What the write leaves in the file its frame names. -/
def fileAfter (files : Int → List UInt8) (frame : SnapshotFrame) : List UInt8 :=
  if leavesTail files frame then [] else chunkWritten files frame

theorem fileAfter_same_iff (files : Int → List UInt8) (frame : SnapshotFrame) :
    fileAfter files frame = files frame.rpc.snapshotLastIndex ↔
      ((files frame.rpc.snapshotLastIndex).drop frame.rpc.snapshotOffset.toNat).take
          frame.data.length = frame.data ∧
        (frame.rpc.snapshotDone = true → (files frame.rpc.snapshotLastIndex).length ≤
          frame.rpc.snapshotOffset.toNat + frame.data.length) := by
  rw [← overlay_eq_self_iff]
  unfold fileAfter
  constructor
  · intro same
    split at same
    · next tail =>
      obtain ⟨-, longer⟩ := (leavesTail_iff files frame).mp tail
      have short := overlay_nil_length_le frame.rpc.snapshotOffset.toNat frame.data
      rw [chunkWritten, ← same] at longer
      omega
    · next ends =>
      refine ⟨same, ?_⟩
      intro last
      by_contra longer
      apply ends
      rw [leavesTail_iff, same]
      exact ⟨last, Nat.not_le.mp longer⟩
  · rintro ⟨same, ended⟩
    have ends : leavesTail files frame ≠ true := by
      intro tail
      obtain ⟨last, longer⟩ := (leavesTail_iff files frame).mp tail
      rw [chunkWritten, same] at longer
      exact Nat.not_le.mpr longer (ended last)
    rw [if_neg ends]
    exact same

theorem kServerWriteInboundSnapshot_files (files : Int → List UInt8) (frame : SnapshotFrame) :
    (kServerWriteInboundSnapshot files frame).1 =
      if writable frame = false then files
      else setFile files frame.rpc.snapshotLastIndex (fileAfter files frame) := by
  unfold kServerWriteInboundSnapshot fileAfter
  cases writable frame with
  | false => rfl
  | true =>
    cases leavesTail files frame with
    | true => rfl
    | false => rfl

/-- A frame leaves the needed files alone exactly when it spares them. Whether the
protocol takes the chunk or refuses it plays no part. -/
theorem inbound_chunk_unharmed_iff (newest previous : Int) (host : Host) (self peerId : Int)
    (frame : SnapshotFrame) :
    Unharmed newest previous host (kServerPeerFrame host self peerId frame).1 ↔
      Spares newest previous host self peerId frame := by
  unfold Unharmed Spares
  rw [kServerPeerFrame_files, kServerWriteInboundSnapshot_files, ← fileAfter_same_iff]
  by_cases foreign : frame.sender ≠ peerId ∨ frame.target ≠ self
  · simp [foreign]
  · rw [if_neg foreign]
    by_cases refused : writable frame = false
    · simp [refused]
    · rw [if_neg refused]
      constructor
      · intro unharmed
        refine Or.inr (Or.inr ?_)
        by_cases needed : Needed newest previous host.node frame.rpc.snapshotLastIndex
        · refine Or.inr ?_
          have same := unharmed _ needed
          rwa [setFile_self] at same
        · exact Or.inl needed
      · rintro (elsewhere | early | other | same) index needed
        · exact absurd elsewhere foreign
        · exact absurd early refused
        · apply setFile_other
          rintro rfl
          exact other needed
        · by_cases named : index = frame.rpc.snapshotLastIndex
          · rw [named, setFile_self, same]
          · exact setFile_other _ _ named

/-- A follower restarted from the snapshot of index 5 in term 2. -/
def restarted : CreateConfig := ⟨1, [1, 2, 3], false, 10, 100, 200, 7, 1024, 4, some {
  term := 2
  votedFor := 0
  lastIncludedIndex := 5
  lastIncludedTerm := 1
  snapshotDirty := false
  snapshotSize := 3
  snapshotCfgOld := [1, 2, 3]
  snapshotCfgNew := [1, 2, 3]
  snapshotCfgLearners := []
  logEntries := [] }⟩

/-- A delayed first chunk of the leader of term 1 for the same snapshot. -/
def staleFrame : SnapshotFrame where
  sender := 2
  target := 1
  rpc := {
    term := 1
    snapshotLastIndex := 5
    snapshotLastTerm := 1
    snapshotOffset := 0
    snapshotDataSize := 4
    snapshotChunkSize := 1
    snapshotCfgOld := [1, 2, 3]
    snapshotCfgNew := [1, 2, 3]
    snapshotCfgLearners := []
    snapshotDone := false
    leaderId := 2 }
  data := [0]
  sized := rfl

/-- The base the node was restarted from. -/
def baseFiles : Int → List UInt8 := fun index => if index = 5 then [1, 2, 3] else []

/-- The protocol answers the stale chunk with its own term and base and changes
nothing else, but the first byte of the base is already overwritten. -/
theorem stale_chunk_overwrites_base :
    (raftCreate restarted).any (fun node =>
      decide (raftRecvfromPeer node
          { sender := 2, target := 1, rpc := .installSnapshot staleFrame.rpc } =
        (sendMessage node 2 (.installSnapshotResult ⟨2, 5⟩), 0)) &&
      decide ((kServerPeerFrame { node, files := baseFiles } 1 2 staleFrame).1.files 5 =
        [0, 2, 3])) = true ∧ baseFiles 5 = [1, 2, 3] := by
  decide +kernel

end Kynovo.Server.Inbound
