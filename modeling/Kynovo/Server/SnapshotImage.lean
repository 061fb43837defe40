import Kynovo.Server.SnapshotFile
import Kynovo.Server.Admission
import Kynovo.Wal.ScanProofs

/-! The bytes of a saved snapshot and how the verifier and the loader walk
them. -/
namespace Kynovo.Server.SnapshotImage
open Kynovo.Lib.LittleEndian
open Kynovo.Lib.FileBytes
open Kynovo.Wal.Record
open Kynovo.Store.Treap
open Kynovo.Store.Treap.Nodes
open Kynovo.Store.Stream
open Kynovo.Server.AddressBook
open Kynovo.Server.Command
open Kynovo.Server.SnapshotFile

/-- Everything in front of the trailer. -/
def imageBody (cluster : Cluster) (t : Tree) : List UInt8 :=
  headerBytes cluster ++ (treapSave t).flatten

/-- A whole snapshot file. -/
def image (cluster : Cluster) (t : Tree) : List UInt8 :=
  imageBody cluster t ++ leBytes 4 (crcFinal (kCrc32Update crcStart (imageBody cluster t)))

theorem kCrc32Update_append (register : Nat) (front back : List UInt8) :
    kCrc32Update register (front ++ back) =
      kCrc32Update (kCrc32Update register front) back :=
  List.foldl_append

/-! ## The writer -/

/-- The sink that has written `front` over a file that held `old`. -/
def sinkAt (old front : List UInt8) : Sink where
  file := front ++ old.drop front.length
  off := front.length
  crc := kCrc32Update crcStart front

theorem kSnapshotSinkWrite_sinkAt (old front data : List UInt8) :
    kSnapshotSinkWrite (sinkAt old front) data = sinkAt old (front ++ data) := by
  simp [kSnapshotSinkWrite, sinkAt, overlay_at_end, kCrc32Update_append, List.append_assoc]

theorem foldl_sinkAt (old : List UInt8) (writes : List (List UInt8)) (front : List UInt8) :
    writes.foldl kSnapshotSinkWrite (sinkAt old front) = sinkAt old (front ++ writes.flatten) := by
  induction writes generalizing front with
  | nil => simp
  | cons data writes ih =>
    rw [List.foldl_cons, kSnapshotSinkWrite_sinkAt, ih, List.flatten_cons, List.append_assoc]

theorem streamed_eq (old : List UInt8) (cluster : Cluster) (t : Tree) :
    streamed old cluster t = sinkAt old (imageBody cluster t) := by
  have folded := foldl_sinkAt old (headerBytes cluster :: treapSave t) []
  simpa [streamed, sinkAt, imageBody, kCrc32Update] using folded

/-- A completed save leaves exactly the image, whatever the file held before. -/
theorem kSnapshotWorkerSave_some {old file : List UInt8} {cluster : Cluster} {t : Tree}
    (saved : kSnapshotWorkerSave old cluster t = some file) : file = image cluster t := by
  simp only [kSnapshotWorkerSave, streamed_eq, sinkAt, overlay_at_end] at saved
  split at saved
  · next complete =>
    cases saved
    obtain ⟨-, ended⟩ := complete
    have nothing : ((old.drop (imageBody cluster t).length).drop
        (leBytes 4 (crcFinal (kCrc32Update crcStart (imageBody cluster t)))).length) = [] := by
      by_contra more
      have long := List.length_pos_of_ne_nil more
      unfold readAt at ended
      rw [if_pos] at ended
      · cases ended
      · simp only [List.length_append, leBytes_length] at long ⊢
        omega
    rw [nothing, List.append_nil, image]
  · cases saved

/-- A save over nothing, or over a file that is not longer, completes. -/
theorem kSnapshotWorkerSave_of_short {old : List UInt8} {cluster : Cluster} {t : Tree}
    (short : old.length ≤ (image cluster t).length) :
    kSnapshotWorkerSave old cluster t = some (image cluster t) := by
  have nothing : (old.drop (imageBody cluster t).length).drop 4 = [] := by
    rw [List.drop_drop]
    apply List.drop_eq_nil_of_le
    simpa [image] using short
  have trailer := readAt_append_add (imageBody cluster t)
    (leBytes 4 (crcFinal (kCrc32Update crcStart (imageBody cluster t)))) 0 4
  have whole := readAt_prefix (leBytes 4 (crcFinal (kCrc32Update crcStart (imageBody cluster t)))) []
  simp only [leBytes_length, List.append_nil] at whole
  simp only [Nat.add_zero] at trailer
  simp only [kSnapshotWorkerSave, streamed_eq, sinkAt, overlay_at_end, leBytes_length, nothing,
    List.append_nil]
  rw [if_pos]
  · rfl
  · refine ⟨trailer.trans whole, readAt_none ?_⟩
    simp

/-! ## The verifier -/

/-- The window holds back the last four bytes and has summed all others. -/
theorem feed_all (file : List UInt8) :
    file.foldl Window.feed { crc := crcStart, tail := [] } =
      { crc := kCrc32Update crcStart (file.take (file.length - 4))
        tail := file.drop (file.length - 4) } := by
  induction file using List.reverseRecOn with
  | nil => rfl
  | append_singleton file byte ih =>
    rw [List.foldl_append, ih, List.foldl_cons, List.foldl_nil]
    by_cases filling : file.length < 4
    · have none_before : file.length - 4 = 0 := by omega
      have none_after : (file ++ [byte]).length - 4 = 0 := by
        simp only [List.length_append, List.length_singleton]
        omega
      rw [none_before, none_after]
      simp [Window.feed, filling]
    · have held : (file.drop (file.length - 4)).length = 4 := by
        rw [List.length_drop]
        omega
      have next : (file ++ [byte]).length - 4 = (file.length - 4) + 1 := by
        simp only [List.length_append, List.length_singleton]
        omega
      have front : (file ++ [byte]).take (file.length - 4 + 1) =
          file.take (file.length - 4) ++ (file.drop (file.length - 4)).take 1 := by
        rw [List.take_append_of_le_length (by omega), List.take_add]
      have back : (file ++ [byte]).drop (file.length - 4 + 1) =
          (file.drop (file.length - 4)).drop 1 ++ [byte] := by
        rw [List.drop_append_of_le_length (by omega), List.drop_drop]
      unfold Window.feed
      rw [if_neg (by simp only [held]; decide), next, front, back, kCrc32Update_append]

/-- The sliding window computes what the recovery model states of a snapshot. -/
theorem kSnapshotVerifyFile_eq (disk : Kynovo.Wal.Append.Disk) {index : Int} (base : 0 < index) :
    Kynovo.Wal.Recovery.kSnapshotVerifyFile disk index = verifyBytes (disk.snapshot index) := by
  unfold Kynovo.Wal.Recovery.kSnapshotVerifyFile verifyBytes
  rw [if_neg (by omega), feed_all]
  by_cases short : (disk.snapshot index).length < 4
  · have partial_tail : ((disk.snapshot index).drop ((disk.snapshot index).length - 4)).length ≠ 4 := by
      rw [List.length_drop]
      omega
    simp only [short, if_true]
    symm
    rw [Bool.and_eq_false_iff]
    exact Or.inl (by simpa using partial_tail)
  · have held : ((disk.snapshot index).drop ((disk.snapshot index).length - 4)).length = 4 := by
      rw [List.length_drop]
      omega
    simp only [short, if_false, held]
    rfl

theorem crcFinal_lt (bytes : List UInt8) : crcFinal (kCrc32Update crcStart bytes) < 256 ^ 4 := by
  have small := Kynovo.Wal.ScanProofs.kCrc32_lt bytes
  simpa [crcFinal, crcStart, kCrc32] using small

/-- The verifier finds the writer's checksum again. -/
theorem verifyBytes_image (cluster : Cluster) (t : Tree) :
    verifyBytes (image cluster t) = true := by
  have size : (image cluster t).length - 4 = (imageBody cluster t).length := by
    simp [image]
  unfold verifyBytes
  rw [feed_all, size]
  simp [image, leNat_leBytes_of_lt (crcFinal_lt _)]

/-! ## The loader -/

/-- The reader stands in front of `rest` and has summed all bytes before it. -/
def Reads (file : List UInt8) (io : FileIo) (rest : List UInt8) : Prop :=
  ∃ front, file = front ++ rest ∧ io.off = front.length ∧ io.crc = kCrc32Update crcStart front

theorem Reads.start (file : List UInt8) : Reads file { off := 0, crc := crcStart } file :=
  ⟨[], by simp, by simp, by simp [kCrc32Update]⟩

theorem Reads.read {file data rest : List UInt8} {io : FileIo} (reads : Reads file io (data ++ rest)) :
    ∃ io', kFileRead file true data.length io = some (data, io') ∧ Reads file io' rest := by
  obtain ⟨front, rfl, off, crc⟩ := reads
  have bytes : readAt (front ++ (data ++ rest)) io.off data.length = some data := by
    rw [off, readAt_append, readAt_prefix]
  refine ⟨{ off := io.off + data.length, crc := kCrc32Update io.crc data }, ?_, ?_⟩
  · simp [kFileRead, bytes]
  · exact ⟨front ++ data, by simp, by simp [off], by simp [crc, kCrc32Update_append]⟩

/-- The same with the size given by an equation. -/
theorem Reads.read_sized {file data rest : List UInt8} {io : FileIo}
    (reads : Reads file io (data ++ rest)) (size : Nat) (fills : data.length = size) :
    ∃ io', kFileRead file true size io = some (data, io') ∧ Reads file io' rest := by
  subst fills
  exact reads.read

theorem fitsInt_id (node : NodeSpec) : FitsInt 4 node.id := by
  obtain ⟨low, high⟩ := node.idFits
  constructor
  · norm_num
    omega
  · norm_num
    omega

theorem leNat_leBytes_port (port : UInt16) : UInt16.ofNat (leNat (leBytes 2 port.toNat)) = port := by
  rw [leNat_leBytes_of_lt (by simpa using port.toNat_lt)]
  exact UInt16.ofNat_toNat

/-- What a slot is read back as. -/
def savedNode (node : NodeSpec) : SavedNode where
  id := node.id
  host := node.host
  clientPort := node.clientPort
  peerPort := node.peerPort

/-- The fixed fields in front of a slot's host. -/
theorem slotHead_fields (node : NodeSpec) :
    leInt ((leBytesInt 4 node.id ++ leBytes 4 node.host.length).take 4) = node.id ∧
      leNat ((leBytesInt 4 node.id ++ leBytes 4 node.host.length).drop 4) = node.host.length := by
  have small : node.host.length < 256 ^ 4 := by
    have fits := node.hostFits
    simp only [hostMax] at fits
    omega
  have front : (leBytesInt 4 node.id ++ leBytes 4 node.host.length).take 4 =
      leBytesInt 4 node.id := List.take_left' (leBytesInt_length 4 node.id)
  have back : (leBytesInt 4 node.id ++ leBytes 4 node.host.length).drop 4 =
      leBytes 4 node.host.length := List.drop_left' (leBytesInt_length 4 node.id)
  rw [front, back]
  exact ⟨leInt_leBytesInt (fitsInt_id node), leNat_leBytes_of_lt small⟩

theorem nodeBytes_split (node : NodeSpec) (rest : List UInt8) :
    nodeBytes node ++ rest = (leBytesInt 4 node.id ++ leBytes 4 node.host.length) ++
      (node.host ++ ((leBytes 2 node.clientPort.toNat ++ leBytes 2 node.peerPort.toNat) ++ rest)) := by
  simp [nodeBytes, sized, List.append_assoc]

theorem readNode_of_hosted {file rest : List UInt8} {io : FileIo} {node : NodeSpec}
    (hosted : node.host ≠ []) (reads : Reads file io (nodeBytes node ++ rest)) :
    ∃ io', readNode file io = some (savedNode node, io') ∧ Reads file io' rest := by
  rw [nodeBytes_split] at reads
  obtain ⟨first, headRead, reads⟩ := reads.read_sized 8 (by simp)
  obtain ⟨second, hostRead, reads⟩ := reads.read
  obtain ⟨third, portsRead, reads⟩ := reads.read_sized 4 (by simp)
  obtain ⟨idField, lengthField⟩ := slotHead_fields node
  have within : ¬(node.host.length < 1 ∨ hostMax ≤ node.host.length) := by
    have filled := List.length_pos_of_ne_nil hosted
    have fits := node.hostFits
    omega
  have clientField : (leBytes 2 node.clientPort.toNat ++ leBytes 2 node.peerPort.toNat).take 2 =
      leBytes 2 node.clientPort.toNat := List.take_left' (leBytes_length 2 _)
  have peerField : (leBytes 2 node.clientPort.toNat ++ leBytes 2 node.peerPort.toNat).drop 2 =
      leBytes 2 node.peerPort.toNat := List.drop_left' (leBytes_length 2 _)
  refine ⟨third, ?_, reads⟩
  simp only [readNode, headRead, Option.bind_eq_bind, Option.bind_some, lengthField, if_neg within,
    hostRead, portsRead, idField, clientField, peerField, leNat_leBytes_port, Option.pure_def,
    savedNode]

theorem readNode_of_hostless {file rest : List UInt8} {io : FileIo} {node : NodeSpec}
    (hostless : node.host = []) (reads : Reads file io (nodeBytes node ++ rest)) :
    readNode file io = none := by
  rw [nodeBytes_split] at reads
  obtain ⟨first, headRead, -⟩ := reads.read_sized 8 (by simp)
  obtain ⟨-, lengthField⟩ := slotHead_fields node
  have short : node.host.length < 1 ∨ hostMax ≤ node.host.length := Or.inl (by simp [hostless])
  simp only [readNode, headRead, Option.bind_eq_bind, Option.bind_some, lengthField, if_pos short]

/-! ### The address book -/

/-- A slot the loader takes: a live id and a host. -/
def Valid (node : NodeSpec) : Prop := node.id ≠ 0 ∧ node.host ≠ []

instance (node : NodeSpec) : Decidable (Valid node) := inferInstanceAs (Decidable (_ ∧ _))

theorem nodeSpec_of_valid {node : NodeSpec} (valid : Valid node) :
    nodeSpec node.id node.host node.clientPort node.peerPort = some node := by
  obtain ⟨live, hosted⟩ := valid
  have filled := List.length_pos_of_ne_nil hosted
  have low := node.idFits.1
  unfold nodeSpec
  rw [dif_pos ⟨⟨by omega, node.idFits.2⟩, filled, node.hostFits⟩]
  simp only [cString_eq_self node.hostText]

theorem nodeSpec_zero (host : List UInt8) (clientPort peerPort : UInt16) :
    nodeSpec 0 host clientPort peerPort = none := by
  simp [nodeSpec]

/-- Where a valid slot goes when it is merged into a book with room for it. -/
theorem kServerAddAddress_valid {cluster : Cluster} {node : NodeSpec} (valid : Valid node)
    (room : slotFor cluster.nodes node.id < maxNodes) :
    ∃ grown, kServerAddAddress cluster node.id node.host node.clientPort node.peerPort = some grown ∧
      grown.nodes = putSlot cluster.nodes (slotFor cluster.nodes node.id) node := by
  have made := nodeSpec_of_valid valid
  unfold kServerAddAddress
  split
  · next refused =>
    rw [made] at refused
    cases refused
  · next spec accepted =>
    rw [made] at accepted
    cases accepted
    rw [dif_pos room]
    exact ⟨_, rfl, rfl⟩

theorem kServerAddAddress_zero {cluster : Cluster} (host : List UInt8) (clientPort peerPort : UInt16) :
    kServerAddAddress cluster 0 host clientPort peerPort = none := by
  unfold kServerAddAddress
  split
  · rfl
  · next spec accepted =>
    rw [nodeSpec_zero] at accepted
    cases accepted

/-- A new id goes behind a book without freed slots. -/
theorem slotFor_new {nodes : List NodeSpec} {id : Int} (fresh : ∀ node ∈ nodes, node.id ≠ id)
    (live : ∀ node ∈ nodes, node.id ≠ 0) : slotFor nodes id = nodes.length := by
  have missing : kClusterIndex nodes id = none := by
    apply List.findIdx?_eq_none_iff.mpr
    intro node inside
    simpa using fresh node inside
  have full : kClusterIndex nodes 0 = none := by
    apply List.findIdx?_eq_none_iff.mpr
    intro node inside
    simpa using live node inside
  simp [slotFor, missing, full]

/-- Loading the slots of a book behind those already merged from it. -/
theorem loadNodes_append {file rest : List UInt8} (book : Cluster) (done todo : List NodeSpec)
    (parts : book.nodes = done ++ todo) (valid : ∀ node ∈ book.nodes, Valid node)
    {cluster : Cluster} (merged : cluster.nodes = done) {io : FileIo}
    (reads : Reads file io (todo.flatMap nodeBytes ++ rest)) :
    ∃ loaded io', loadNodes file todo.length cluster io = (loaded, some io') ∧
      loaded.nodes = book.nodes ∧ Reads file io' rest := by
  induction todo generalizing done cluster io with
  | nil => exact ⟨cluster, io, rfl, by rw [merged, parts, List.append_nil], by simpa using reads⟩
  | cons node todo ih =>
    have inside : node ∈ book.nodes := by simp [parts]
    rw [List.flatMap_cons, List.append_assoc] at reads
    obtain ⟨next, read, reads⟩ := readNode_of_hosted (valid node inside).2 reads
    have live : ∀ other ∈ done, other.id ≠ 0 := fun other early =>
      (valid other (by rw [parts]; exact List.mem_append_left _ early)).1
    have fresh : ∀ other ∈ done, other.id ≠ node.id := by
      intro other early same
      obtain ⟨i, at_i⟩ := List.getElem?_of_mem early
      have bound := (List.getElem?_eq_some_iff.mp at_i).1
      have other_at : book.nodes[i]? = some other := by
        rw [parts, List.getElem?_append_left bound, at_i]
      have node_at : book.nodes[done.length]? = some node := by
        rw [parts]
        simp
      have equal := book.distinct i done.length other node other_at node_at same (live other early)
      omega
    have slot : slotFor cluster.nodes node.id = done.length := by
      rw [merged]
      exact slotFor_new fresh live
    have room : slotFor cluster.nodes node.id < maxNodes := by
      have bounded := book.bounded
      rw [parts, List.length_append, List.length_cons] at bounded
      omega
    obtain ⟨grown, added, nodes⟩ := kServerAddAddress_valid (valid node inside) room
    have grown_nodes : grown.nodes = done ++ [node] := by
      rw [nodes, slot, merged]
      simp [putSlot]
    obtain ⟨loaded, io', rest_loaded, same, behind⟩ := ih (done ++ [node]) (by simp [parts])
      grown_nodes reads
    refine ⟨loaded, io', ?_, same, behind⟩
    simp [loadNodes, read, savedNode, added, rest_loaded]

/-- A slot without a live id or a host stops the load. -/
theorem loadNodes_invalid {file rest : List UInt8} (nodes : List NodeSpec)
    (invalid : ¬∀ node ∈ nodes, Valid node) (cluster : Cluster) {io : FileIo}
    (reads : Reads file io (nodes.flatMap nodeBytes ++ rest)) :
    (loadNodes file nodes.length cluster io).2 = none := by
  induction nodes generalizing cluster io with
  | nil => simp at invalid
  | cons node nodes ih =>
    rw [List.flatMap_cons, List.append_assoc] at reads
    by_cases hosted : node.host = []
    · simp [loadNodes, readNode_of_hostless hosted reads]
    · obtain ⟨next, read, reads⟩ := readNode_of_hosted hosted reads
      rw [List.length_cons, loadNodes, read]
      cases added : kServerAddAddress cluster (savedNode node).id (savedNode node).host
          (savedNode node).clientPort (savedNode node).peerPort with
      | none => simp only [added]
      | some grown =>
        simp only [added]
        have live : node.id ≠ 0 := by
          intro freed
          simp only [savedNode, freed, kServerAddAddress_zero] at added
          cases added
        apply ih _ grown reads
        intro others
        apply invalid
        intro other inside
        rcases List.mem_cons.mp inside with rfl | later
        · exact ⟨live, hosted⟩
        · exact others other later

/-- A merge keeps every live id that was in the book. -/
theorem kClusterIndex_putSlot {nodes : List NodeSpec} (node : NodeSpec) {id : Int} (live : id ≠ 0)
    (known : (kClusterIndex nodes id).isSome) :
    (kClusterIndex (putSlot nodes (slotFor nodes node.id) node) id).isSome := by
  obtain ⟨index, found⟩ := Option.isSome_iff_exists.mp known
  obtain ⟨spec, at_index, same⟩ := kClusterIndex_some found
  by_contra missing
  rw [Option.not_isSome_iff_eq_none] at missing
  have absent := kClusterIndex_none missing
  have reach := slotFor_le nodes node.id
  by_cases replaced : index = slotFor nodes node.id
  · have own : node.id ≠ id := by
      apply absent
      apply List.mem_of_getElem?
      rw [putSlot_getElem? node reach, if_pos rfl]
    cases self : kClusterIndex nodes node.id with
    | some slot =>
      obtain ⟨held, at_slot, heldId⟩ := kClusterIndex_some self
      have where_ : slotFor nodes node.id = slot := by simp [slotFor, self]
      rw [replaced, where_, at_slot, Option.some.injEq] at at_index
      rw [at_index, same] at heldId
      exact own heldId.symm
    | none =>
      cases freed : kClusterIndex nodes 0 with
      | some slot =>
        obtain ⟨held, at_slot, heldId⟩ := kClusterIndex_some freed
        have where_ : slotFor nodes node.id = slot := by simp [slotFor, self, freed]
        rw [replaced, where_, at_slot, Option.some.injEq] at at_index
        rw [at_index, same] at heldId
        exact live heldId
      | none =>
        have where_ : slotFor nodes node.id = nodes.length := by simp [slotFor, self, freed]
        have bound := (List.getElem?_eq_some_iff.mp at_index).1
        omega
  · apply absent spec _ same
    apply List.mem_of_getElem?
    rw [putSlot_getElem? node reach, if_neg replaced, at_index]

/-- How many slots have an id that a book does not hold yet. -/
def strangers (cluster : Cluster) (nodes : List NodeSpec) : Nat :=
  nodes.countP (fun node => (kClusterIndex cluster.nodes node.id).isNone)

/-- A book has room for the slots of another one. -/
def Room (cluster : Cluster) (nodes : List NodeSpec) : Prop :=
  cluster.nodes.length + strangers cluster nodes ≤ maxNodes

theorem putSlot_length (nodes : List NodeSpec) (index : Nat) (node : NodeSpec) :
    (putSlot nodes index node).length =
      if index < nodes.length then nodes.length else nodes.length + 1 := by
  unfold putSlot
  split
  · simp
  · simp

theorem slotFor_lt_of_known {nodes : List NodeSpec} {id : Int}
    (known : (kClusterIndex nodes id).isSome) : slotFor nodes id < nodes.length := by
  obtain ⟨index, found⟩ := Option.isSome_iff_exists.mp known
  obtain ⟨spec, at_index, -⟩ := kClusterIndex_some found
  have bound := (List.getElem?_eq_some_iff.mp at_index).1
  simpa [slotFor, found] using bound

/-- Merging a slot leaves room for the others. -/
theorem Room.merge {cluster grown : Cluster} {node : NodeSpec} {nodes : List NodeSpec}
    (valid : ∀ other ∈ nodes, Valid other) (room : Room cluster (node :: nodes))
    (merged : grown.nodes = putSlot cluster.nodes (slotFor cluster.nodes node.id) node) :
    Room grown nodes := by
  have fewer : strangers grown nodes ≤ strangers cluster nodes := by
    apply List.countP_mono_left
    intro other inside unknown
    by_contra known
    replace known : (kClusterIndex cluster.nodes other.id).isSome :=
      Option.isSome_iff_ne_none.mpr (by simpa using known)
    have kept := kClusterIndex_putSlot node (valid other inside).1 known
    rw [← merged] at kept
    simp only [Option.isNone_iff_eq_none] at unknown
    rw [unknown] at kept
    cases kept
  unfold Room at room ⊢
  rw [merged, putSlot_length]
  rw [strangers, List.countP_cons, ← strangers] at room
  cases known : kClusterIndex cluster.nodes node.id with
  | some index =>
    have inside := slotFor_lt_of_known (Option.isSome_iff_exists.mpr ⟨index, known⟩)
    rw [if_pos inside]
    omega
  | none =>
    simp only [known, Option.isNone_none, if_true] at room
    split
    · omega
    · omega

theorem Room.slot {cluster : Cluster} {node : NodeSpec} {nodes : List NodeSpec}
    (room : Room cluster (node :: nodes)) : slotFor cluster.nodes node.id < maxNodes := by
  unfold Room at room
  rw [strangers, List.countP_cons, ← strangers] at room
  have reach := slotFor_le cluster.nodes node.id
  cases known : kClusterIndex cluster.nodes node.id with
  | some index =>
    have inside := slotFor_lt_of_known (Option.isSome_iff_exists.mpr ⟨index, known⟩)
    omega
  | none =>
    simp only [known, Option.isNone_none, if_true] at room
    omega

/-- Valid slots are all taken by a book that has room for them. -/
theorem loadNodes_room {file rest : List UInt8} (nodes : List NodeSpec)
    (valid : ∀ node ∈ nodes, Valid node) {cluster : Cluster} (room : Room cluster nodes)
    {io : FileIo} (reads : Reads file io (nodes.flatMap nodeBytes ++ rest)) :
    ∃ loaded io', loadNodes file nodes.length cluster io = (loaded, some io') ∧
      Reads file io' rest := by
  induction nodes generalizing cluster io with
  | nil => exact ⟨cluster, io, rfl, by simpa using reads⟩
  | cons node nodes ih =>
    have first := valid node List.mem_cons_self
    have others : ∀ other ∈ nodes, Valid other := fun other later =>
      valid other (List.mem_cons_of_mem _ later)
    rw [List.flatMap_cons, List.append_assoc] at reads
    obtain ⟨next, read, reads⟩ := readNode_of_hosted first.2 reads
    obtain ⟨grown, added, merged⟩ := kServerAddAddress_valid first room.slot
    obtain ⟨loaded, io', rest_loaded, behind⟩ := ih others (room.merge others merged) reads
    refine ⟨loaded, io', ?_, behind⟩
    simp [loadNodes, read, savedNode, added, rest_loaded]

/-! ### The tree -/

/-- An entry as a load with this seed makes it. -/
def reseed (seed : UInt64) (entry : Entry) : Entry :=
  { entry with priority := treapHash seed entry.key }

theorem entryWrites_flatten (entry : Entry) :
    (entryWrites entry).flatten = sized entry.key ++ sized entry.value := by
  have field (bytes : List UInt8) : (writtenField bytes).flatten = bytes := by
    unfold writtenField
    split
    · next empty => simp [empty]
    · simp
  simp [entryWrites, field, sized, List.append_assoc]

theorem treapSave_flatten (t : Tree) : (treapSave t).flatten =
    t.snap.entries.flatMap (fun entry => sized entry.key ++ sized entry.value) ++ leBytes 4 0 := by
  rw [treapSave, List.flatten_append, List.flatten_singleton]
  congr 1
  induction t.snap.entries with
  | nil => rfl
  | cons entry rest ih =>
    rw [List.flatMap_cons, List.flatten_append, ih, entryWrites_flatten, List.flatMap_cons]

theorem keyLen_lt (entry : Entry) : entry.key.length < 256 ^ 4 := by
  have fits := entry.keyFits
  simp only [treapNodeBytes] at fits
  omega

theorem valueLen_lt (entry : Entry) : entry.value.length < 256 ^ 4 := by
  have fits := entry.valueFits
  omega

/-- Behind the key length: the key, the value length and the value. -/
def recordTail (entry : Entry) (rest : List UInt8) : List UInt8 :=
  entry.key ++ (leBytes 4 entry.value.length ++ (entry.value ++ rest))

/-- A record is loaded unless its value is empty and no value buffer exists. -/
theorem loadRecord_present {file rest : List UInt8} {io : FileIo} (seed : UInt64)
    {loading : Loading} {entry : Entry} (reads : Reads file io (recordTail entry rest))
    (present : 0 < max loading.valueCap entry.value.length) :
    ∃ after io', loadRecord (kFileRead file) seed loading entry.key.length io = some (after, io') ∧
      Reads file io' rest ∧ 0 < after.valueCap ∧
      spineEntries after.spine = spineEntries loading.spine ++ [reseed seed entry] := by
  have filled := List.length_pos_of_ne_nil entry.keyed
  have keyed : decide (0 < max loading.keyCap entry.key.length) = true :=
    decide_eq_true (lt_max_of_lt_right filled)
  obtain ⟨first, keyRead, reads⟩ := reads.read
  obtain ⟨second, lengthRead, reads⟩ := reads.read_sized 4 (by simp)
  obtain ⟨third, valueRead, reads⟩ := reads.read
  have made : treapNodeInit seed entry.key entry.value = some (reseed seed entry) := by
    unfold treapNodeInit
    rw [dif_pos ⟨entry.keyed, entry.keyFits, entry.valueFits⟩]
    rfl
  refine ⟨{
    spine := pushEntry loading.spine (reseed seed entry)
    nodeCount := loading.nodeCount + 1
    keyCap := max loading.keyCap entry.key.length
    valueCap := max loading.valueCap entry.value.length }, third, ?_, reads, present,
    pushEntry_entries loading.spine (reseed seed entry)⟩
  have valued := decide_eq_true present
  simp only [loadRecord, keyed, keyRead, lengthRead, leNat_leBytes_of_lt (valueLen_lt entry),
    valued, valueRead, made, Option.bind_eq_bind, Option.bind_some, Option.pure_def]

theorem loadRecord_absent {file rest : List UInt8} {io : FileIo} {seed : UInt64}
    {loading : Loading} {entry : Entry} (reads : Reads file io (recordTail entry rest))
    (unallocated : loading.valueCap = 0) (empty : entry.value = []) :
    loadRecord (kFileRead file) seed loading entry.key.length io = none := by
  have filled := List.length_pos_of_ne_nil entry.keyed
  have keyed : decide (0 < max loading.keyCap entry.key.length) = true :=
    decide_eq_true (lt_max_of_lt_right filled)
  obtain ⟨first, keyRead, reads⟩ := reads.read
  obtain ⟨second, lengthRead, -⟩ := reads.read_sized 4 (by simp)
  have size : leNat (leBytes 4 entry.value.length) = 0 := by
    rw [leNat_leBytes_of_lt (valueLen_lt entry), empty]
    rfl
  have refused : kFileRead file false 0 second = none := rfl
  simp only [loadRecord, keyed, keyRead, lengthRead, size, unallocated, Nat.max_self,
    Nat.lt_irrefl, decide_false, refused, Option.bind_eq_bind, Option.bind_some, Option.bind_none]

/-- The first value decides whether there is a value buffer for all that follow. -/
def FirstValueKept (saved : List Entry) : Prop := ∀ entry ∈ saved.head?, entry.value ≠ []

instance (saved : List Entry) : Decidable (FirstValueKept saved) :=
  inferInstanceAs (Decidable (∀ entry ∈ saved.head?, entry.value ≠ []))

theorem recordBytes_split (entry : Entry) (rest : List UInt8) :
    (sized entry.key ++ sized entry.value) ++ rest =
      leBytes 4 entry.key.length ++ recordTail entry rest := by
  simp [sized, recordTail, List.append_assoc]

theorem loadRecords_saved {file rest : List UInt8} (seed : UInt64) (saved : List Entry)
    {fuel : Nat} (enough : saved.length < fuel) {loading : Loading}
    (present : 0 < loading.valueCap ∨ FirstValueKept saved) {io : FileIo}
    (reads : Reads file io (saved.flatMap (fun entry => sized entry.key ++ sized entry.value) ++
      (leBytes 4 0 ++ rest))) :
    ∃ after io', loadRecords (kFileRead file) seed fuel loading io = some (after, io') ∧
      Reads file io' rest ∧
      spineEntries after.spine = spineEntries loading.spine ++ saved.map (reseed seed) := by
  induction saved generalizing fuel loading io with
  | nil =>
    obtain ⟨fuel, rfl⟩ : ∃ left, fuel = left + 1 := ⟨fuel - 1, by simp at enough; omega⟩
    rw [List.flatMap_nil, List.nil_append] at reads
    obtain ⟨next, read, reads⟩ := reads.read_sized 4 (by simp)
    have zero : leNat (leBytes 4 0) = 0 := rfl
    exact ⟨loading, next, by simp [loadRecords, read, zero], reads, by simp⟩
  | cons entry saved ih =>
    rw [List.length_cons] at enough
    obtain ⟨fuel, rfl⟩ : ∃ left, fuel = left + 1 := ⟨fuel - 1, by omega⟩
    rw [List.flatMap_cons, List.append_assoc, recordBytes_split] at reads
    obtain ⟨next, lengthRead, reads⟩ := reads.read_sized 4 (by simp)
    have keyLen := leNat_leBytes_of_lt (keyLen_lt entry)
    have filled : entry.key.length ≠ 0 := Nat.ne_of_gt (List.length_pos_of_ne_nil entry.keyed)
    have buffered : 0 < max loading.valueCap entry.value.length := by
      rcases present with already | kept
      · exact lt_max_of_lt_left already
      · exact lt_max_of_lt_right (List.length_pos_of_ne_nil (kept entry rfl))
    obtain ⟨middle, behind, recordRead, reads, allocated, grown⟩ :=
      loadRecord_present seed reads buffered
    have fewer : saved.length < fuel := by omega
    obtain ⟨after, io', remaining, ends, found⟩ := ih fewer (Or.inl allocated) reads
    refine ⟨after, io', ?_, ends, ?_⟩
    · simp only [loadRecords, lengthRead, keyLen, if_neg filled, recordRead, remaining,
        Option.bind_eq_bind, Option.bind_some]
    · rw [found, grown, List.append_assoc]
      rfl

theorem loadRecords_first_empty {file rest : List UInt8} {seed : UInt64} {entry : Entry}
    (empty : entry.value = []) {fuel : Nat} {loading : Loading} (unallocated : loading.valueCap = 0)
    {io : FileIo} (reads : Reads file io ((sized entry.key ++ sized entry.value) ++ rest)) :
    loadRecords (kFileRead file) seed fuel loading io = none := by
  cases fuel with
  | zero => rfl
  | succ fuel =>
    rw [recordBytes_split] at reads
    obtain ⟨next, lengthRead, reads⟩ := reads.read_sized 4 (by simp)
    have keyLen := leNat_leBytes_of_lt (keyLen_lt entry)
    have filled : entry.key.length ≠ 0 := Nat.ne_of_gt (List.length_pos_of_ne_nil entry.keyed)
    simp only [loadRecords, lengthRead, keyLen, if_neg filled,
      loadRecord_absent reads unallocated empty, Option.bind_eq_bind, Option.bind_some,
      Option.bind_none]

/-- The part of an image behind its address book. -/
def treeBytes (t : Tree) : List UInt8 :=
  t.snap.entries.flatMap (fun entry => sized entry.key ++ sized entry.value) ++ leBytes 4 0

theorem treapLoad_saved {file rest : List UInt8} {t target : Tree} (idle : target.snap = nil)
    (kept : FirstValueKept t.snap.entries) {io : FileIo} {fuel : Nat}
    (enough : t.snap.entries.length < fuel) (reads : Reads file io (treeBytes t ++ rest)) :
    ∃ loaded io', treapLoad (kFileRead file) fuel target io = some (loaded, io') ∧
      Reads file io' rest ∧
      loaded.root.entries = t.snap.entries.map (reseed target.seed) := by
  rw [treeBytes, List.append_assoc] at reads
  obtain ⟨after, io', records, ends, found⟩ :=
    loadRecords_saved target.seed t.snap.entries enough (Or.inr kept) reads
  unfold treapLoad
  rw [if_neg (by simp [idle])]
  split
  · next refused =>
    rw [records] at refused
    cases refused
  · next loading tail accepted =>
    rw [records] at accepted
    cases accepted
    refine ⟨_, _, rfl, ends, ?_⟩
    change (closeSpine after.spine nil).entries = _
    rw [closeSpine_entries, found]
    simp [Loading.start, spineEntries, Nodes.entries]

theorem treapLoad_first_empty {file rest : List UInt8} {t target : Tree}
    (dropped : ¬FirstValueKept t.snap.entries) {io : FileIo} {fuel : Nat}
    (reads : Reads file io (treeBytes t ++ rest)) :
    treapLoad (kFileRead file) fuel target io = none := by
  cases saved : t.snap.entries with
  | nil => simp [saved, FirstValueKept] at dropped
  | cons entry others =>
    have empty : entry.value = [] := by simpa [saved, FirstValueKept] using dropped
    rw [treeBytes, saved, List.flatMap_cons, List.append_assoc, List.append_assoc] at reads
    have refused : loadRecords (kFileRead file) target.seed fuel Loading.start io = none :=
      loadRecords_first_empty empty rfl reads
    unfold treapLoad
    split
    · rfl
    · split
      · rfl
      · next accepted =>
        rw [refused] at accepted
        cases accepted

end Kynovo.Server.SnapshotImage
