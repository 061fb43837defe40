import Kynovo.Lib.FileBytes
import Kynovo.Store.Stream
import Kynovo.Server.Command
import Kynovo.Wal.Recovery

/-! Snapshot files: the address book, the tree and a checksum over both. The
writer streams its bytes through a sink that keeps the checksum, the verifier
slides a four-byte window over the file, and the loader reads field by field. -/
namespace Kynovo.Server.SnapshotFile
open Kynovo.Lib.LittleEndian
open Kynovo.Lib.FileBytes
open Kynovo.Wal.Record
open Kynovo.Store.Treap
open Kynovo.Store.Stream
open Kynovo.Server.AddressBook
open Kynovo.Server.Command

def snapshotMagic : Nat := 0x4b444231

/-- The checksum register before the first byte. -/
def crcStart : Nat := 0xffffffff

/-- The checksum a register stands for. -/
def crcFinal (register : Nat) : Nat := register ^^^ 0xffffffff

/-! ## Writing -/

structure Sink where
  file : List UInt8
  off : Nat
  crc : Nat

def kSnapshotSinkWrite (sink : Sink) (data : List UInt8) : Sink where
  file := overlay sink.file sink.off data
  off := sink.off + data.length
  crc := kCrc32Update sink.crc data

def nodeBytes (node : NodeSpec) : List UInt8 :=
  leBytesInt 4 node.id ++ (sized node.host ++
    (leBytes 2 node.clientPort.toNat ++ leBytes 2 node.peerPort.toNat))

/-- Magic and captured address book; every slot is written, freed ones too. -/
def headerBytes (cluster : Cluster) : List UInt8 :=
  leBytes 4 snapshotMagic ++ (leBytes 4 cluster.nodes.length ++ cluster.nodes.flatMap nodeBytes)

/-- The sink behind the header and the streamed tree. -/
def streamed (old : List UInt8) (cluster : Cluster) (t : Tree) : Sink :=
  (headerBytes cluster :: treapSave t).foldl kSnapshotSinkWrite
    { file := old, off := 0, crc := crcStart }

/-- The file a save leaves, when the save is reported as complete: the trailer
reads back and nothing stands behind it. `old` is what the file held before. -/
def kSnapshotWorkerSave (old : List UInt8) (cluster : Cluster) (t : Tree) :
    Option (List UInt8) :=
  let sink := streamed old cluster t
  let trailer := leBytes 4 (crcFinal sink.crc)
  let file := overlay sink.file sink.off trailer
  if readAt file sink.off 4 = some trailer ∧ readAt file (sink.off + 4) 1 = none then some file
  else none

/-! ## Verifying -/

/-- The register and the bytes held back for the trailer. -/
structure Window where
  crc : Nat
  tail : List UInt8

def Window.feed (window : Window) (byte : UInt8) : Window :=
  if window.tail.length < 4 then { window with tail := window.tail ++ [byte] }
  else
    { crc := kCrc32Update window.crc (window.tail.take 1)
      tail := window.tail.drop 1 ++ [byte] }

/-- The file ends with the checksum of what precedes it. -/
def verifyBytes (file : List UInt8) : Bool :=
  let window := file.foldl Window.feed { crc := crcStart, tail := [] }
  window.tail.length == 4 && crcFinal window.crc == leNat window.tail

/-! ## Loading -/

structure FileIo where
  off : Nat
  crc : Nat

/-- A read is refused without a buffer, whatever its size. -/
def kFileRead (file : List UInt8) (present : Bool) (size : Nat) (io : FileIo) :
    Option (List UInt8 × FileIo) :=
  if present then
    (readAt file io.off size).map (fun data =>
      (data, { off := io.off + size, crc := kCrc32Update io.crc data }))
  else none

/-- One slot of the saved book, as it is handed to `k_server_add_address`. -/
structure SavedNode where
  id : Int
  host : List UInt8
  clientPort : UInt16
  peerPort : UInt16
deriving DecidableEq, Repr

def readNode (file : List UInt8) (io : FileIo) : Option (SavedNode × FileIo) := do
  let (head, io) ← kFileRead file true 8 io
  let hostLen := leNat (head.drop 4)
  if hostLen < 1 ∨ hostMax ≤ hostLen then none
  else
    let (host, io) ← kFileRead file true hostLen io
    let (ports, io) ← kFileRead file true 4 io
    return ({
      id := leInt (head.take 4)
      host
      clientPort := UInt16.ofNat (leNat (ports.take 2))
      peerPort := UInt16.ofNat (leNat (ports.drop 2)) }, io)

/-- The saved slots are merged into the book one by one; those merged before a
refusal stay. -/
def loadNodes (file : List UInt8) : Nat → Cluster → FileIo → Cluster × Option FileIo
  | 0, cluster, io => (cluster, some io)
  | count + 1, cluster, io =>
    match readNode file io with
    | none => (cluster, none)
    | some (saved, io) =>
      match kServerAddAddress cluster saved.id saved.host saved.clientPort saved.peerPort with
      | none => (cluster, none)
      | some cluster => loadNodes file count cluster io

/-- The tree and its trailer behind the address book. -/
def loadTree (file : List UInt8) (t : Tree) (io : FileIo) : Option Tree := do
  let (tree, io) ← treapLoad (kFileRead file) (file.length + 1) t io
  let stored ← readAt file io.off 4
  if leNat stored = crcFinal io.crc then some tree else none

/-- The head of the file: the number of slots behind the magic. -/
def readHead (file : List UInt8) : Option (Nat × FileIo) := do
  let (head, io) ← kFileRead file true 8 { off := 0, crc := crcStart }
  if leNat (head.take 4) ≠ snapshotMagic ∨ maxNodes < leNat (head.drop 4) then none
  else return (leNat (head.drop 4), io)

/-- The book after the load, and the loaded tree when the file was accepted. -/
def kSnapshotLoadFile (cluster : Cluster) (file : List UInt8) (t : Tree) :
    Cluster × Option Tree :=
  match readHead file with
  | none => (cluster, none)
  | some (count, io) =>
    match loadNodes file count cluster io with
    | (cluster, none) => (cluster, none)
    | (cluster, some io) => (cluster, loadTree file t io)

end Kynovo.Server.SnapshotFile
