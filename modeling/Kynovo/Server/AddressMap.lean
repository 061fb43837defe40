import Mathlib.Data.Finset.Card
import Mathlib.Data.Finset.Basic
import Mathlib.Data.List.Nodup
import Kynovo.Proto.ClientCodec
import Kynovo.Server.CommandSemantics

/-! The replicated address map: built from the leader's book, applied to every replica's
own. -/
namespace Kynovo.Server.AddressMap
open Kynovo.Lib.LittleEndian
open Kynovo.Wal.Record (maxNodes kReaderU32 kReaderI32 kReaderUnsigned)
open Kynovo.Proto.Fields
open Kynovo.Proto.ClientCodec
open Kynovo.Server.AddressBook
open Kynovo.Server.Admission
open Kynovo.Server.Command
open Kynovo.Server.CommandSemantics (kServerApplyCommand_op)

def addressOf (node : NodeSpec) : Address := ⟨node.id, node.host, node.clientPort, node.peerPort⟩

/-- The nodes of the book that a list of ids names, in the order of the ids. -/
def listed (cluster : Cluster) (ids : List Int) : List NodeSpec :=
  ids.filterMap fun id => (kClusterIndex cluster.nodes id).bind fun index => cluster.nodes[index]?

def kServerBuildAddrCommand (cluster : Cluster) (ids : List Int) : List UInt8 :=
  leBytes 1 opAddr ++ (leBytes 4 (listed cluster ids).length ++
    (listed cluster ids).flatMap fun node => addressBytes (addressOf node))

/-- The ids that take a slot of a book. -/
def liveIds (cluster : Cluster) : Finset Int :=
  ((cluster.nodes.map NodeSpec.id).filter (· ≠ 0)).toFinset

theorem mem_liveIds {cluster : Cluster} {id : Int} :
    id ∈ liveIds cluster ↔ id ≠ 0 ∧ ∃ node ∈ cluster.nodes, node.id = id := by
  simp [liveIds, and_comm]

theorem liveIds_card_le (cluster : Cluster) : (liveIds cluster).card ≤ cluster.nodes.length := by
  have few := List.toFinset_card_le ((cluster.nodes.map NodeSpec.id).filter (· ≠ 0))
  have fewer := List.length_filter_le (fun id : Int => decide (id ≠ 0)) (cluster.nodes.map NodeSpec.id)
  rw [List.length_map] at fewer
  exact few.trans fewer

/-- A freed slot is no live id's. -/
theorem liveIds_card_lt {cluster : Cluster} {index : Nat}
    (freed : kClusterIndex cluster.nodes 0 = some index) :
    (liveIds cluster).card < cluster.nodes.length := by
  obtain ⟨node, at_index, zero⟩ := kClusterIndex_some freed
  have few := List.toFinset_card_le ((cluster.nodes.map NodeSpec.id).filter (· ≠ 0))
  have fewer : ((cluster.nodes.map NodeSpec.id).filter (· ≠ 0)).length <
      (cluster.nodes.map NodeSpec.id).length := by
    apply List.length_filter_lt_length_iff_exists.mpr
    exact ⟨node.id, List.mem_map_of_mem (List.mem_of_getElem? at_index), by simp [zero]⟩
  rw [List.length_map] at fewer
  exact Nat.lt_of_le_of_lt few fewer

/-- Without a freed slot every slot is a live id's of its own. -/
theorem liveIds_card_eq {cluster : Cluster} (full : kClusterIndex cluster.nodes 0 = none) :
    (liveIds cluster).card = cluster.nodes.length := by
  have alive : ∀ id ∈ cluster.nodes.map NodeSpec.id, decide (id ≠ 0) = true := by
    intro id member
    obtain ⟨node, inside, rfl⟩ := List.mem_map.mp member
    simpa using kClusterIndex_none full node inside
  have apart : (cluster.nodes.map NodeSpec.id).Nodup := by
    apply List.nodup_iff_injective_get.mpr
    intro i j same
    have first : i.val < cluster.nodes.length := by simpa using i.isLt
    have second : j.val < cluster.nodes.length := by simpa using j.isLt
    have sameId : cluster.nodes[i.val].id = cluster.nodes[j.val].id := by simpa using same
    apply Fin.ext
    exact cluster.distinct i.val j.val _ _ (List.getElem?_eq_getElem first)
      (List.getElem?_eq_getElem second) sameId
      (kClusterIndex_none full _ (List.getElem_mem first))
  rw [liveIds, List.filter_eq_self.mpr alive, List.toFinset_card_of_nodup apart, List.length_map]

/-- There is a slot for an id exactly if the live ids with it fit. -/
theorem slotFor_lt_iff (cluster : Cluster) {id : Int} (live : id ≠ 0) :
    slotFor cluster.nodes id < maxNodes ↔ (insert id (liveIds cluster)).card ≤ maxNodes := by
  have bounded := cluster.bounded
  cases own : kClusterIndex cluster.nodes id with
  | some index =>
    obtain ⟨node, at_index, same⟩ := kClusterIndex_some own
    have member : id ∈ liveIds cluster :=
      mem_liveIds.mpr ⟨live, node, List.mem_of_getElem? at_index, same⟩
    have inside := (List.getElem?_eq_some_iff.mp at_index).1
    have slot : slotFor cluster.nodes id = index := by simp [slotFor, own]
    have few := liveIds_card_le cluster
    rw [Finset.insert_eq_of_mem member, slot]
    exact iff_of_true (by omega) (by omega)
  | none =>
    have absent : id ∉ liveIds cluster := by
      intro member
      obtain ⟨-, node, inside, same⟩ := mem_liveIds.mp member
      exact kClusterIndex_none own node inside same
    rw [Finset.card_insert_of_notMem absent]
    cases freed : kClusterIndex cluster.nodes 0 with
    | some index =>
      have slot : slotFor cluster.nodes id = index := by simp [slotFor, own, freed]
      obtain ⟨node, at_index, -⟩ := kClusterIndex_some freed
      have inside := (List.getElem?_eq_some_iff.mp at_index).1
      have few := liveIds_card_lt freed
      rw [slot]
      exact iff_of_true (by omega) (by omega)
    | none =>
      have slot : slotFor cluster.nodes id = cluster.nodes.length := by simp [slotFor, own, freed]
      rw [slot, liveIds_card_eq freed]
      exact Nat.lt_iff_add_one_le

theorem nodeSpec_isSome {id : Int} {host : List UInt8} {clientPort peerPort : UInt16} :
    (nodeSpec id host clientPort peerPort).isSome = true ↔
      (0 < id ∧ id < 2147483648) ∧ 1 ≤ host.length ∧ host.length < hostMax := by
  unfold nodeSpec
  split
  · rename_i fits
    exact iff_of_true rfl fits
  · rename_i fits
    exact iff_of_false (by simp) fits

/-- The live ids after an id went to its slot. -/
theorem liveIds_put {cluster after : Cluster} {spec : NodeSpec} (live : spec.id ≠ 0)
    (nodes : after.nodes = putSlot cluster.nodes (slotFor cluster.nodes spec.id) spec) :
    liveIds after = insert spec.id (liveIds cluster) := by
  have entry := putSlot_getElem? spec (slotFor_le cluster.nodes spec.id)
  ext id
  rw [Finset.mem_insert, mem_liveIds, mem_liveIds, nodes]
  constructor
  · rintro ⟨alive, node, member, rfl⟩
    obtain ⟨i, at_i⟩ := List.mem_iff_getElem?.mp member
    rw [entry] at at_i
    split at at_i
    · cases at_i
      exact Or.inl rfl
    · exact Or.inr ⟨alive, node, List.mem_of_getElem? at_i, rfl⟩
  · rintro (rfl | ⟨alive, node, member, rfl⟩)
    · refine ⟨live, spec, List.mem_iff_getElem?.mpr ⟨slotFor cluster.nodes spec.id, ?_⟩, rfl⟩
      rw [entry, if_pos rfl]
    · obtain ⟨i, at_i⟩ := List.mem_iff_getElem?.mp member
      by_cases taken : i = slotFor cluster.nodes spec.id
      · -- the slot that is written was the id's own, or a freed one
        refine ⟨alive, spec, List.mem_iff_getElem?.mpr ⟨i, by rw [entry, if_pos taken]⟩, ?_⟩
        unfold slotFor at taken
        cases own : kClusterIndex cluster.nodes spec.id with
        | some index =>
          obtain ⟨other, at_index, same⟩ := kClusterIndex_some own
          have here : i = index := by simpa [own] using taken
          rw [here, at_index] at at_i
          cases at_i
          exact same.symm
        | none =>
          cases freed : kClusterIndex cluster.nodes 0 with
          | some index =>
            obtain ⟨other, at_index, zero⟩ := kClusterIndex_some freed
            have here : i = index := by simpa [own, freed] using taken
            rw [here, at_index] at at_i
            cases at_i
            exact absurd zero alive
          | none =>
            have here : i = cluster.nodes.length := by simpa [own, freed] using taken
            have inside := (List.getElem?_eq_some_iff.mp at_i).1
            omega
      · exact ⟨alive, node, List.mem_iff_getElem?.mpr ⟨i, by rw [entry, if_neg taken]; exact at_i⟩,
          rfl⟩

/-- An address enters a book exactly if it is well formed and the live ids with it fit. -/
theorem kServerAddAddress_spec (cluster : Cluster) (id : Int) (host : List UInt8)
    (clientPort peerPort : UInt16) :
    match kServerAddAddress cluster id host clientPort peerPort with
    | some after => ((0 < id ∧ id < 2147483648) ∧ 1 ≤ host.length ∧ host.length < hostMax) ∧
        (insert id (liveIds cluster)).card ≤ maxNodes ∧
        liveIds after = insert id (liveIds cluster)
    | none => ¬ (((0 < id ∧ id < 2147483648) ∧ 1 ≤ host.length ∧ host.length < hostMax) ∧
        (insert id (liveIds cluster)).card ≤ maxNodes) := by
  unfold kServerAddAddress
  split
  · rename_i after added
    split at added
    · cases added
    · rename_i spec made
      have fits := nodeSpec_isSome.mp (by rw [made]; rfl)
      have same : spec.id = id := by
        unfold nodeSpec at made
        rw [dif_pos fits] at made
        cases made
        rfl
      have live : spec.id ≠ 0 := by omega
      split at added
      · rename_i room
        cases added
        have entered := (slotFor_lt_iff cluster live).mp room
        rw [same] at entered
        exact ⟨fits, entered, (liveIds_put live rfl).trans (congrArg (insert · _) same)⟩
      · cases added
  · rename_i refused
    rintro ⟨fits, room⟩
    split at refused
    · rename_i none
      have made := (@nodeSpec_isSome id host clientPort peerPort).mpr fits
      rw [none] at made
      cases made
    · rename_i spec made
      have same : spec.id = id := by
        unfold nodeSpec at made
        rw [dif_pos fits] at made
        cases made
        rfl
      have live : spec.id ≠ 0 := by omega
      rw [← same] at room
      rw [dif_pos ((slotFor_lt_iff cluster live).mpr room)] at refused
      cases refused

/-- When a list of addresses can enter a book. -/
structure Enters (cluster : Cluster) (nodes : List NodeSpec) : Prop where
  wellFormed : ∀ node ∈ nodes, 0 < node.id ∧ node.host ≠ []
  room : (liveIds cluster ∪ (nodes.map NodeSpec.id).toFinset).card ≤ maxNodes

theorem enters_cons {cluster after : Cluster} {node : NodeSpec} {rest : List NodeSpec}
    (first : 0 < node.id ∧ node.host ≠ []) (ids : liveIds after = insert node.id (liveIds cluster)) :
    Enters cluster (node :: rest) ↔ Enters after rest := by
  have union : liveIds cluster ∪ ((node :: rest).map NodeSpec.id).toFinset =
      liveIds after ∪ (rest.map NodeSpec.id).toFinset := by
    rw [List.map_cons, List.toFinset_cons, Finset.union_insert, ids, Finset.insert_union]
  constructor
  · rintro ⟨wellFormed, room⟩
    rw [union] at room
    exact ⟨fun other member => wellFormed other (List.mem_cons_of_mem _ member), room⟩
  · rintro ⟨wellFormed, room⟩
    rw [← union] at room
    refine ⟨?_, room⟩
    intro other member
    rcases List.mem_cons.mp member with rfl | later
    · exact first
    · exact wellFormed other later

theorem notePending_cluster (server : Replica) (id : Int) :
    (notePending server id).cluster = server.cluster := by
  unfold notePending
  dsimp only
  split
  · rfl
  · rfl

/-- The reading of one entry, up to its host. -/
theorem applyAddresses_cons (node : NodeSpec) (count : Nat) (server : Replica) (tail : List UInt8) :
    applyAddresses (count + 1) server (addressBytes (addressOf node) ++ tail) =
      if node.host = [] then none
      else
        (kServerAddAddress server.cluster node.id node.host node.clientPort node.peerPort).bind
          fun cluster => applyAddresses count (notePending { server with cluster } node.id) tail := by
  have fits : FitsInt 4 node.id := by
    have range := node.idFits
    unfold FitsInt
    omega
  have id : ∀ rest, kReaderI32 (leBytesInt 4 node.id ++ rest) = some (node.id, rest) :=
    (signed_codec 4).reads fits
  rw [applyAddresses]
  simp only [addressBytes, addressOf, List.append_assoc, id, Option.bind_eq_bind, Option.bind_some]
  by_cases unnamed : node.host = []
  · rw [if_pos unnamed, unnamed]
    have header : ∀ rest, kReaderU32 (leBytes 4 0 ++ rest) = some (0, rest) :=
      (unsigned_codec 4).reads (by decide)
    simp [readSized, sized, header]
  · rw [if_neg unnamed]
    have low : 1 ≤ node.host.length := List.length_pos_iff.mpr unnamed
    have high : node.host.length ≤ hostMax - 1 := by
      have short := node.hostFits
      omega
    have host := fun rest => readSized_sized 1 (hostMax - 1) rest (by decide) low high
    have clientPort : ∀ rest, kReaderUnsigned 2 (leBytes 2 node.clientPort.toNat ++ rest) =
        some (node.clientPort.toNat, rest) := (unsigned_codec 2).reads node.clientPort.toNat_lt
    have peerPort : ∀ rest, kReaderUnsigned 2 (leBytes 2 node.peerPort.toNat ++ rest) =
        some (node.peerPort.toNat, rest) := (unsigned_codec 2).reads node.peerPort.toNat_lt
    simp only [host, clientPort, peerPort, Option.bind_some, UInt16.ofNat_toNat]

/-- The entries of a map go into a replica's book one after the other. -/
theorem applyAddresses_isSome (nodes : List NodeSpec) (server : Replica) :
    match applyAddresses nodes.length server
      (nodes.flatMap fun node => addressBytes (addressOf node)) with
    | some (_, rest) => rest = [] ∧ Enters server.cluster nodes
    | none => ¬ Enters server.cluster nodes := by
  induction nodes generalizing server with
  | nil =>
    refine ⟨rfl, ?_⟩
    constructor
    · intro node member
      cases member
    · rw [List.map_nil, List.toFinset_nil, Finset.union_empty]
      exact (liveIds_card_le _).trans server.cluster.bounded
  | cons node rest ih =>
    rw [List.length_cons, List.flatMap_cons, applyAddresses_cons]
    by_cases unnamed : node.host = []
    · rw [if_pos unnamed]
      intro enters
      exact (enters.wellFormed node List.mem_cons_self).2 unnamed
    · rw [if_neg unnamed]
      have added := kServerAddAddress_spec server.cluster node.id node.host node.clientPort
        node.peerPort
      cases entered : kServerAddAddress server.cluster node.id node.host node.clientPort
        node.peerPort with
      | none =>
        rw [entered] at added
        intro enters
        apply added
        have first := enters.wellFormed node List.mem_cons_self
        refine ⟨⟨⟨first.1, node.idFits.2⟩, List.length_pos_iff.mpr unnamed, node.hostFits⟩, ?_⟩
        refine (Finset.card_le_card ?_).trans enters.room
        apply Finset.insert_subset
        · apply Finset.mem_union_right
          simp
        · exact Finset.subset_union_left
      | some cluster =>
        rw [entered] at added
        obtain ⟨⟨⟨positive, -⟩, -⟩, -, ids⟩ := added
        have onward := ih (notePending { server with cluster } node.id)
        rw [notePending_cluster] at onward
        rw [enters_cons ⟨positive, unnamed⟩ ids]
        exact onward

/-- The apply of an address map succeeds on a replica exactly if the map is well formed and
the live ids of the replica's book and those of the map fit one book. -/
theorem addr_command_applies_iff (leader : Cluster) (ids : List Int) (replica : Replica)
    (count : ids.length < 2 ^ 31) :
    (kServerApplyCommand replica (kServerBuildAddrCommand leader ids)).isSome = true ↔
      (listed leader ids).length ≤ maxNodes ∧
        (∀ node ∈ listed leader ids, 0 < node.id ∧ node.host ≠ []) ∧
        (liveIds replica.cluster ∪ ((listed leader ids).map NodeSpec.id).toFinset).card ≤
          maxNodes := by
  have few : (listed leader ids).length ≤ ids.length := List.length_filterMap_le _ _
  generalize made : listed leader ids = nodes at few
  have dispatch : kServerApplyCommand replica (kServerBuildAddrCommand leader ids) =
      applyAddr replica (leBytes 4 nodes.length ++
        nodes.flatMap fun node => addressBytes (addressOf node)) := by
    rw [kServerBuildAddrCommand, made, kServerApplyCommand_op (by decide)]
    simp [opAddr, opMset, opMdel, opRset, opFcall, opRdel, opCas]
  have header : kReaderU32 (leBytes 4 nodes.length ++
      nodes.flatMap fun node => addressBytes (addressOf node)) =
        some (nodes.length, nodes.flatMap fun node => addressBytes (addressOf node)) :=
    (unsigned_codec 4).reads (by omega) _
  rw [dispatch, applyAddr, header]
  simp only [Option.bind_eq_bind, Option.bind_some]
  by_cases many : maxNodes < nodes.length
  · rw [if_pos many]
    apply iff_of_false (by simp)
    rintro ⟨fits, -⟩
    omega
  · rw [if_neg many]
    have entries := applyAddresses_isSome nodes replica
    cases applied : applyAddresses nodes.length replica
      (nodes.flatMap fun node => addressBytes (addressOf node)) with
    | none =>
      rw [applied] at entries
      apply iff_of_false (by simp)
      rintro ⟨-, wellFormed, room⟩
      exact entries ⟨wellFormed, room⟩
    | some result =>
      obtain ⟨after, rest⟩ := result
      rw [applied] at entries
      obtain ⟨rfl, enters⟩ := entries
      apply iff_of_true (by simp)
      exact ⟨by omega, enters.wellFormed, enters.room⟩

/-- A book of nodes on one host, and the same book after peers said hello to node 2. -/
def bookOf (ids : List Int) : Option Cluster :=
  ids.foldlM (fun cluster id => kServerAddAddress cluster id [104] 1 1) Cluster.empty

def helloAll (cluster : Cluster) (ids : List Int) : Option Cluster :=
  ids.foldlM (fun cluster id => kServerPeerHello cluster 2 id [104] 1 1) cluster

theorem addr_command_applies_two :
    (kServerApplyCommand emptyReplica
      (kServerBuildAddrCommand ((bookOf [1, 2]).getD Cluster.empty) [1, 2])).isSome = true := by
  apply (addr_command_applies_iff ((bookOf [1, 2]).getD Cluster.empty) [1, 2] emptyReplica
    (by decide)).mpr
  exact ⟨by decide +kernel, by decide +kernel, by decide +kernel⟩

/-- Fourteen hellos fill the book of node 2; the map with the new member 17 that the leader
then replicates does not go in. -/
theorem full_book_refuses_map :
    ((bookOf [1, 2]).bind fun start =>
      (helloAll start [3, 4, 5, 6, 7, 8, 9, 10, 11, 12, 13, 14, 15, 16]).bind fun filled =>
        (kServerAddAddress start 17 [104] 1 1).map fun leader =>
          (kServerApplyCommand { emptyReplica with cluster := filled }
            (kServerBuildAddrCommand leader [1, 2, 17])).isSome) = some false := by
  decide +kernel

end Kynovo.Server.AddressMap
