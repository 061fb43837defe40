import Kynovo.Server.SnapshotImage

/-! Whether a saved snapshot can be loaded again. The loader gets past the
address book exactly when every slot of it is live and has a host, and past the
tree exactly when the value of the smallest key is not empty. -/
namespace Kynovo.Server.SnapshotRoundTrip
open Kynovo.Lib.LittleEndian
open Kynovo.Lib.FileBytes
open Kynovo.Wal.Record
open Kynovo.Store.Treap
open Kynovo.Store.Treap.Nodes
open Kynovo.Store.Stream
open Kynovo.Server.AddressBook
open Kynovo.Server.Command
open Kynovo.Server.SnapshotFile
open Kynovo.Server.SnapshotImage

def trailer (book : Cluster) (t : Tree) : List UInt8 :=
  leBytes 4 (crcFinal (kCrc32Update crcStart (imageBody book t)))

theorem image_split (book : Cluster) (t : Tree) :
    image book t = (leBytes 4 snapshotMagic ++ leBytes 4 book.nodes.length) ++
      (book.nodes.flatMap nodeBytes ++ (treeBytes t ++ trailer book t)) := by
  simp [image, imageBody, headerBytes, treapSave_flatten, treeBytes, trailer, List.append_assoc]

/-- The head of an image is accepted and names its slots. -/
theorem readHead_image (book : Cluster) (t : Tree) :
    ∃ io, readHead (image book t) = some (book.nodes.length, io) ∧
      Reads (image book t) io (book.nodes.flatMap nodeBytes ++ (treeBytes t ++ trailer book t)) := by
  have bounded := book.bounded
  have small : book.nodes.length < 256 ^ 4 := by
    simp only [maxNodes] at bounded
    omega
  have start : Reads (image book t) { off := 0, crc := crcStart }
      ((leBytes 4 snapshotMagic ++ leBytes 4 book.nodes.length) ++
        (book.nodes.flatMap nodeBytes ++ (treeBytes t ++ trailer book t))) := by
    rw [← image_split]
    exact Reads.start _
  obtain ⟨io, read, reads⟩ := start.read_sized 8 (by simp)
  have magic : (leBytes 4 snapshotMagic ++ leBytes 4 book.nodes.length).take 4 =
      leBytes 4 snapshotMagic := List.take_left' (leBytes_length 4 _)
  have count : (leBytes 4 snapshotMagic ++ leBytes 4 book.nodes.length).drop 4 =
      leBytes 4 book.nodes.length := List.drop_left' (leBytes_length 4 _)
  have known : leNat (leBytes 4 snapshotMagic) = snapshotMagic :=
    leNat_leBytes_of_lt (by norm_num [snapshotMagic])
  have accepted : ¬(snapshotMagic ≠ snapshotMagic ∨ maxNodes < book.nodes.length) := by
    simpa using bounded
  refine ⟨io, ?_, reads⟩
  simp only [readHead, read, magic, count, known, leNat_leBytes_of_lt small, if_neg accepted,
    Option.bind_eq_bind, Option.bind_some, Option.pure_def]

theorem entries_le_treeBytes (t : Tree) : t.snap.entries.length ≤ (treeBytes t).length := by
  have records (saved : List Entry) : saved.length ≤
      (saved.flatMap (fun entry => sized entry.key ++ sized entry.value)).length := by
    induction saved with
    | nil => simp
    | cons entry saved ih =>
      have record : 1 ≤ (sized entry.key ++ sized entry.value).length := by
        simp only [sized, List.length_append, leBytes_length]
        omega
      rw [List.flatMap_cons, List.length_append, List.length_cons]
      omega
  rw [treeBytes, List.length_append]
  exact le_trans (records _) (Nat.le_add_right _ _)

/-- The tree of an image is loaded when its first value is not empty. -/
theorem loadTree_image {book : Cluster} {t target : Tree} (idle : target.snap = nil)
    (kept : FirstValueKept t.snap.entries) {io : FileIo}
    (reads : Reads (image book t) io (treeBytes t ++ trailer book t)) :
    ∃ loaded, loadTree (image book t) target io = some loaded ∧
      loaded.root.entries = t.snap.entries.map (reseed target.seed) := by
  have enough : t.snap.entries.length < (image book t).length + 1 := by
    have records := entries_le_treeBytes t
    rw [image_split]
    simp only [List.length_append]
    omega
  obtain ⟨loaded, io', load, reads, found⟩ := treapLoad_saved idle kept enough reads
  obtain ⟨front, whole, off, crc⟩ := reads
  have ends : front ++ trailer book t = imageBody book t ++ trailer book t := by
    rw [← whole, image, trailer]
  have body : front = imageBody book t := List.append_cancel_right ends
  have stored : readAt (image book t) io'.off 4 = some (trailer book t) := by
    have bytes := readAt_prefix (trailer book t) []
    rw [List.append_nil, trailer, leBytes_length, ← trailer] at bytes
    rw [whole, off, readAt_append, bytes]
  have matched : leNat (trailer book t) = crcFinal io'.crc := by
    rw [trailer, leNat_leBytes_of_lt (crcFinal_lt _), crc, body]
  exact ⟨loaded, by simp [loadTree, load, stored, matched], found⟩

theorem loadTree_refused {book : Cluster} {t target : Tree}
    (dropped : ¬FirstValueKept t.snap.entries) {io : FileIo}
    (reads : Reads (image book t) io (treeBytes t ++ trailer book t)) :
    loadTree (image book t) target io = none := by
  simp [loadTree, treapLoad_first_empty dropped reads]

/-! ## The tree -/

/-- The keys with their values, in order. -/
def pairs (t : Tree) : List (List UInt8 × List UInt8) :=
  t.root.entries.map (fun entry => (entry.key, entry.value))

/-- The priorities of a load do not touch keys and values. -/
theorem reseed_pair (seed : UInt64) (entry : Entry) :
    ((reseed seed entry).key, (reseed seed entry).value) = (entry.key, entry.value) := by
  -- the entry is taken apart first: comparing the two priorities would evaluate the hash
  obtain ⟨key, value, priority, keyed, keyFits, valueFits⟩ := entry
  rfl

/-- The file passes the verifier, and loading it into an empty tree gives the map
that was captured. -/
def RestoresMap (target : Cluster) (seed : UInt64) (file : List UInt8) (t : Tree) : Prop :=
  verifyBytes file = true ∧ ∃ loaded,
    (kSnapshotLoadFile target file (treapCreate seed)).2 = some loaded ∧
      pairs loaded = pairs t ∧ loaded.count = t.count

/-- A completed save of a book of valid slots restores the captured map exactly
when the tree is empty or the value of its smallest key is not. -/
theorem saved_map_restored_iff {old file : List UInt8} {book target : Cluster} {t : Tree}
    (seed : UInt64) (valid : ∀ node ∈ book.nodes, Valid node) (room : Room target book.nodes)
    (saved : kSnapshotWorkerSave old book (treapCapture t) = some file) :
    RestoresMap target seed file t ↔ FirstValueKept t.root.entries := by
  obtain rfl := kSnapshotWorkerSave_some saved
  obtain ⟨io, head, reads⟩ := readHead_image book (treapCapture t)
  obtain ⟨grown, io', nodes, reads⟩ := loadNodes_room book.nodes valid room reads
  constructor
  · rintro ⟨-, loaded, load, -⟩
    by_contra dropped
    have refused : loadTree (image book (treapCapture t)) (treapCreate seed) io' = none :=
      loadTree_refused dropped reads
    simp only [kSnapshotLoadFile, head, nodes, refused] at load
    cases load
  · intro kept
    have idle : (treapCreate seed).snap = nil := rfl
    have first : FirstValueKept (treapCapture t).snap.entries := kept
    obtain ⟨loaded, load, found⟩ := loadTree_image idle first reads
    replace found : loaded.root.entries = t.root.entries.map (reseed seed) := found
    refine ⟨verifyBytes_image book _, loaded, ?_, ?_, ?_⟩
    · simp only [kSnapshotLoadFile, head, nodes, load]
    · rw [pairs, pairs, found, List.map_map]
      apply List.map_congr_left
      intro entry inside
      exact reseed_pair seed entry
    · rw [loaded.counted, found, List.length_map, t.counted]

/-- A book of one node, `h` at ports 1 and 2. -/
def oneNodeBook : Cluster where
  nodes := [⟨1, [104], 1, 2, by decide, by decide, by decide⟩]
  bounded := by decide
  distinct := by
    intro i j a b at_i at_j _ _
    have first := (List.getElem?_eq_some_iff.mp at_i).1
    have second := (List.getElem?_eq_some_iff.mp at_j).1
    simp only [List.length_singleton] at first second
    omega

/-- The tree after `SET a` with an empty value. -/
def blankTree : Tree :=
  putEntry (treapCreate 0) ⟨[97], [], treapHash 0 [97], by decide, by decide, by decide⟩

/-- The tree after `SET` of `c`, `a`, `d` and `b`; the value of `d` is empty. -/
def filledTree : Tree :=
  putEntry (putEntry (putEntry (putEntry (treapCreate 0)
    ⟨[99], [120], treapHash 0 [99], by decide, by decide, by decide⟩)
    ⟨[97], [118, 119], treapHash 0 [97], by decide, by decide, by decide⟩)
    ⟨[100], [], treapHash 0 [100], by decide, by decide, by decide⟩)
    ⟨[98], [121], treapHash 0 [98], by decide, by decide, by decide⟩

/-- A client can make the tree, its save completes and verifies, and no load
takes it back. -/
theorem blank_first_value_refused :
    (kServerApplyCommand Admission.emptyReplica (commandBytes .set [97] [])).map
        (fun applied => applied.1.tree) = some blankTree ∧
      (kSnapshotWorkerSave [] oneNodeBook (treapCapture blankTree)).any (fun file =>
        verifyBytes file &&
          (kSnapshotLoadFile Cluster.empty file (treapCreate 0)).2.isNone) = true := by
  decide +kernel

theorem filled_first_value_restored :
    ∃ file, kSnapshotWorkerSave [] oneNodeBook (treapCapture filledTree) = some file ∧
      RestoresMap Cluster.empty 0 file filledTree := by
  have saved : kSnapshotWorkerSave [] oneNodeBook (treapCapture filledTree) =
      some (image oneNodeBook (treapCapture filledTree)) :=
    kSnapshotWorkerSave_of_short (Nat.zero_le _)
  refine ⟨_, saved, (saved_map_restored_iff 0 ?_ ?_ saved).mpr ?_⟩
  · decide +kernel
  · unfold Room
    decide +kernel
  · decide +kernel

/-! ## The address book -/

/-- What changes the address book. Member additions, replicated addresses and the
automatic replacement all add an address; a load happens at recovery and when a
snapshot is installed. -/
inductive BookOp where
  | add (id : Int) (host : List UInt8) (clientPort peerPort : UInt16)
  | hello (self id : Int) (host : List UInt8) (clientPort peerPort : UInt16)
  | reconnect (admission silentStandby : Bool) (members : Members) (self : Int)
  | load (file : List UInt8) (t : Tree)

/-- A refused addition leaves the book alone; a refused load keeps what it had
merged. -/
def BookOp.step (book : Cluster) : BookOp → Cluster
  | .add id host clientPort peerPort =>
    (kServerAddAddress book id host clientPort peerPort).getD book
  | .hello self id host clientPort peerPort =>
    (kServerPeerHello book self id host clientPort peerPort).getD book
  | .reconnect admission silentStandby members self =>
    kServerReconnect admission silentStandby members self book
  | .load file t => (kSnapshotLoadFile book file t).1

def runBook (start : Cluster) (ops : List BookOp) : Cluster := ops.foldl BookOp.step start

/-- Every slot is live and has a host, as in a book made from a cluster
specification. -/
def AllValid (book : Cluster) : Prop := ∀ node ∈ book.nodes, Valid node

instance (book : Cluster) : Decidable (AllValid book) :=
  inferInstanceAs (Decidable (∀ node ∈ book.nodes, Valid node))

/-- A step that frees no slot and stores no empty host. -/
def Harmless (book : Cluster) : BookOp → Prop
  | .add _ host _ _ => host.head? ≠ some 0
  | .hello _ _ host _ _ => host.head? ≠ some 0
  | .reconnect admission silentStandby members self =>
    admission = false ∨ silentStandby = true ∨ ∀ node ∈ book.nodes,
      kMembershipContains members node.id = true ∨ members.voters.length ≤ 1 ∨ node.id = self
  | .load file _ => ∃ other t, AllValid other ∧ file = image other t

/-- Every step of the run is harmless where it happens. -/
def HarmlessRun : Cluster → List BookOp → Prop
  | _, [] => True
  | book, op :: ops => Harmless book op ∧ HarmlessRun (op.step book) ops

/-- The file loads, and the empty book it is loaded into becomes the live slots
of the saved one. -/
def RestoresBook (seed : UInt64) (file : List UInt8) (book : Cluster) : Prop :=
  ∃ grown loaded, kSnapshotLoadFile Cluster.empty file (treapCreate seed) = (grown, some loaded) ∧
    grown.nodes = book.nodes.filter (fun node => node.id ≠ 0)

theorem image_book_iff (seed : UInt64) (book : Cluster) (t : Tree) :
    RestoresBook seed (image book t) book ↔
      AllValid book ∧ FirstValueKept t.snap.entries := by
  obtain ⟨io, head, reads⟩ := readHead_image book t
  have empty : Cluster.empty.nodes = [] := rfl
  constructor
  · rintro ⟨grown, loaded, load, -⟩
    simp only [kSnapshotLoadFile, head] at load
    have valid : AllValid book := by
      by_contra invalid
      have refused := loadNodes_invalid book.nodes invalid Cluster.empty reads
      split at load
      · cases load
      · next shape =>
        rw [shape] at refused
        cases refused
    refine ⟨valid, ?_⟩
    obtain ⟨merged, io', nodes, -, reads⟩ := loadNodes_append book [] book.nodes rfl valid
      empty reads
    by_contra dropped
    simp only [nodes, loadTree_refused dropped reads, Prod.mk.injEq] at load
    cases load.2
  · rintro ⟨valid, kept⟩
    obtain ⟨merged, io', nodes, same, reads⟩ := loadNodes_append book [] book.nodes rfl valid
      empty reads
    have idle : (treapCreate seed).snap = nil := rfl
    obtain ⟨loaded, load, -⟩ := loadTree_image idle kept reads
    refine ⟨merged, loaded, ?_, ?_⟩
    · simp only [kSnapshotLoadFile, head, nodes, load]
    · rw [same, List.filter_eq_self.mpr]
      intro node inside
      simpa using (valid node inside).1

/-! ## Runs of the book -/

theorem mem_putSlot {nodes : List NodeSpec} {index : Nat} {spec node : NodeSpec}
    (inside : node ∈ putSlot nodes index spec) : node = spec ∨ node ∈ nodes := by
  unfold putSlot at inside
  split at inside
  · exact (List.mem_or_eq_of_mem_set inside).symm
  · rcases List.mem_append.mp inside with old | new
    · exact Or.inr old
    · exact Or.inl (List.mem_singleton.mp new)

theorem nodeSpec_valid {id : Int} {host : List UInt8} {clientPort peerPort : UInt16}
    {spec : NodeSpec} (text : host.head? ≠ some 0)
    (made : nodeSpec id host clientPort peerPort = some spec) : Valid spec := by
  unfold nodeSpec at made
  split at made
  · next fits =>
    cases made
    refine ⟨ne_of_gt fits.1.1, ?_⟩
    cases host with
    | nil => simp at fits
    | cons first rest =>
      have visible : first ≠ 0 := by simpa using text
      simp [cString, visible]
  · cases made

theorem kServerAddAddress_keeps {book grown : Cluster} {id : Int} {host : List UInt8}
    {clientPort peerPort : UInt16} (valid : AllValid book) (text : host.head? ≠ some 0)
    (added : kServerAddAddress book id host clientPort peerPort = some grown) : AllValid grown := by
  unfold kServerAddAddress at added
  split at added
  · cases added
  · next spec made =>
    split at added
    · cases added
      intro node inside
      rcases mem_putSlot inside with rfl | old
      · exact nodeSpec_valid text made
      · exact valid node old
    · cases added

theorem kServerReconnect_keeps {book : Cluster} {admission silentStandby : Bool}
    {members : Members} {self : Int} (valid : AllValid book)
    (harmless : Harmless book (.reconnect admission silentStandby members self)) :
    AllValid (kServerReconnect admission silentStandby members self book) := by
  unfold kServerReconnect
  split
  · exact valid
  · next active =>
    simp only [Bool.or_eq_true, Bool.not_eq_true', not_or, Bool.not_eq_false,
      Bool.not_eq_true] at active
    rcases harmless with stopped | silent | members_only
    · rw [active.1] at stopped
      cases stopped
    · rw [active.2] at silent
      cases silent
    · intro node inside
      obtain ⟨before, was, rfl⟩ := List.mem_map.mp inside
      have kept : pruneSlot members self before = before := by
        unfold pruneSlot
        rcases members_only before was with member | few | own
        · rw [if_pos member]
        · split
          · rfl
          · rw [if_neg (fun both => Nat.not_lt.mpr few both.1)]
        · split
          · rfl
          · rw [if_neg (fun both => both.2 own)]
      rw [kept]
      exact valid before was

/-- Merging valid slots keeps a valid book valid, also when a slot is refused. -/
theorem loadNodes_keeps {file rest : List UInt8} (nodes : List NodeSpec)
    (saved : ∀ node ∈ nodes, Valid node) {book : Cluster} (valid : AllValid book) {io : FileIo}
    (reads : Reads file io (nodes.flatMap nodeBytes ++ rest)) :
    AllValid (loadNodes file nodes.length book io).1 := by
  induction nodes generalizing book io with
  | nil => exact valid
  | cons node nodes ih =>
    have first := saved node List.mem_cons_self
    rw [List.flatMap_cons, List.append_assoc] at reads
    obtain ⟨next, read, reads⟩ := readNode_of_hosted first.2 reads
    rw [List.length_cons, loadNodes, read]
    cases added : kServerAddAddress book (savedNode node).id (savedNode node).host
        (savedNode node).clientPort (savedNode node).peerPort with
    | none =>
      simp only [added]
      exact valid
    | some grown =>
      simp only [added]
      have text : node.host.head? ≠ some 0 := by
        intro zero
        exact node.hostText (List.mem_of_mem_head? zero)
      exact ih (fun other later => saved other (List.mem_cons_of_mem _ later))
        (kServerAddAddress_keeps valid text added) reads

theorem kSnapshotLoadFile_keeps {book other : Cluster} {t target : Tree} (valid : AllValid book)
    (saved : AllValid other) : AllValid (kSnapshotLoadFile book (image other t) target).1 := by
  obtain ⟨io, head, reads⟩ := readHead_image other t
  have kept := loadNodes_keeps other.nodes saved valid reads
  simp only [kSnapshotLoadFile, head]
  split
  · next merged shape =>
    rw [shape] at kept
    exact kept
  · next merged behind shape =>
    rw [shape] at kept
    exact kept

/-- A harmless step keeps every slot valid. -/
theorem step_allValid {book : Cluster} {op : BookOp} (valid : AllValid book)
    (harmless : Harmless book op) : AllValid (op.step book) := by
  cases op with
  | add id host clientPort peerPort =>
    cases added : kServerAddAddress book id host clientPort peerPort with
    | none => simpa [BookOp.step, added] using valid
    | some grown => simpa [BookOp.step, added] using kServerAddAddress_keeps valid harmless added
  | hello self id host clientPort peerPort =>
    simp only [BookOp.step, kServerPeerHello]
    split
    · exact valid
    · split
      · exact valid
      · cases added : kServerAddAddress book id host clientPort peerPort with
        | none => exact valid
        | some grown => exact kServerAddAddress_keeps valid harmless added
  | reconnect admission silentStandby members self => exact kServerReconnect_keeps valid harmless
  | load file t =>
    obtain ⟨other, saved, others, rfl⟩ := harmless
    exact kSnapshotLoadFile_keeps valid others

theorem run_allValid {start : Cluster} (valid : AllValid start) (ops : List BookOp)
    (harmless : HarmlessRun start ops) : AllValid (runBook start ops) := by
  induction ops generalizing start with
  | nil => exact valid
  | cons op ops ih => exact ih (step_allValid valid harmless.1) harmless.2

/-- Whatever happened to the address book: a snapshot saved at a moment of the run
restores its live slots exactly when no slot is freed or without a host at that
moment (and the tree behind it loads). A run that starts from a specification and
neither frees a slot nor stores an empty host is in that state at every moment. -/
theorem saved_book_restored_iff (start : Cluster) (ops : List BookOp) (t : Tree) (seed : UInt64)
    {old file : List UInt8}
    (saved : kSnapshotWorkerSave old (runBook start ops) (treapCapture t) = some file) :
    (RestoresBook seed file (runBook start ops) ↔
        AllValid (runBook start ops) ∧ FirstValueKept t.root.entries) ∧
      (AllValid start → HarmlessRun start ops → AllValid (runBook start ops)) := by
  obtain rfl := kSnapshotWorkerSave_some saved
  exact ⟨image_book_iff seed _ _, fun valid harmless => run_allValid valid ops harmless⟩

/-- Three nodes are added; then the established members 1 and 2 drop node 3. -/
def prunedRun : List BookOp :=
  [.add 1 [104] 1 2, .add 2 [105] 3 4, .add 3 [106] 5 6,
    .reconnect true false { voters := [1, 2], learners := [], pending := [] } 1]

/-- A snapshot saved while the slot of node 3 is free is refused by every start
that needs it. -/
theorem pruned_slot_refused :
    (runBook Cluster.empty prunedRun).nodes.map NodeSpec.id = [1, 2, 0] ∧
      (kSnapshotWorkerSave [] (runBook Cluster.empty prunedRun) (treapCapture filledTree)).any
        (fun file => verifyBytes file &&
          (kSnapshotLoadFile Cluster.empty file (treapCreate 0)).2.isNone) = true := by
  decide +kernel

theorem two_members_restored :
    ∃ file, kSnapshotWorkerSave [] (runBook Cluster.empty [.add 1 [104] 1 2, .add 2 [105] 3 4])
        (treapCapture filledTree) = some file ∧
      RestoresBook 0 file (runBook Cluster.empty [.add 1 [104] 1 2, .add 2 [105] 3 4]) := by
  have saved : kSnapshotWorkerSave [] (runBook Cluster.empty [.add 1 [104] 1 2, .add 2 [105] 3 4])
      (treapCapture filledTree) = some (image _ (treapCapture filledTree)) :=
    kSnapshotWorkerSave_of_short (Nat.zero_le _)
  refine ⟨_, saved, (saved_book_restored_iff _ _ filledTree 0 saved).1.mpr ⟨?_, ?_⟩⟩
  · decide +kernel
  · decide +kernel

end Kynovo.Server.SnapshotRoundTrip
