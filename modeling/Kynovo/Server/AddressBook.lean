import Mathlib.Data.List.Basic
import Mathlib.Data.UInt
import Kynovo.Wal.Record

/-! The address book: an array of slots, one a node. A slot is freed by setting
its id to zero and keeps its host; a later addition reuses it. -/
namespace Kynovo.Server.AddressBook
open Kynovo.Wal.Record

def hostMax : Nat := 64

/-- One slot. The host is the C string in the slot's buffer, so it ends before
the first zero byte; an id of zero marks a freed slot. -/
structure NodeSpec where
  id : Int
  host : List UInt8
  clientPort : UInt16
  peerPort : UInt16
  idFits : 0 ≤ id ∧ id < 2147483648
  hostFits : host.length < hostMax
  hostText : (0 : UInt8) ∉ host
deriving DecidableEq, Repr

/-- No live id stands in two slots. -/
def Distinct (nodes : List NodeSpec) : Prop :=
  ∀ (i j : Nat) (a b : NodeSpec), nodes[i]? = some a → nodes[j]? = some b → a.id = b.id →
    a.id ≠ 0 → i = j

/-- The slots in use. At most `maxNodes` of them, and no live id twice. -/
structure Cluster where
  nodes : List NodeSpec
  bounded : nodes.length ≤ maxNodes
  distinct : Distinct nodes

/-- A book no slot of which is taken yet. -/
def Cluster.empty : Cluster where
  nodes := []
  bounded := Nat.zero_le _
  distinct := by simp [Distinct]

/-- The text a buffer holds after these bytes and a terminating zero were copied
into it. -/
def cString (bytes : List UInt8) : List UInt8 := bytes.takeWhile (· ≠ 0)

theorem cString_length_le (bytes : List UInt8) : (cString bytes).length ≤ bytes.length :=
  (List.takeWhile_sublist _).length_le

theorem zero_notMem_cString (bytes : List UInt8) : (0 : UInt8) ∉ cString bytes := by
  intro inside
  simpa using List.mem_takeWhile_imp inside

theorem cString_eq_self {text : List UInt8} (clean : (0 : UInt8) ∉ text) : cString text = text := by
  rw [cString, List.takeWhile_eq_self_iff]
  intro byte inside
  rcases eq_or_ne byte 0 with rfl | other
  · exact absurd inside clean
  · simpa using other

/-- What an addition writes into its slot: a positive id and a host of 1 to
`hostMax - 1` bytes. -/
def nodeSpec (id : Int) (host : List UInt8) (clientPort peerPort : UInt16) : Option NodeSpec :=
  if fits : (0 < id ∧ id < 2147483648) ∧ 1 ≤ host.length ∧ host.length < hostMax then
    some {
      id := id
      host := cString host
      clientPort := clientPort
      peerPort := peerPort
      idFits := ⟨le_of_lt fits.1.1, fits.1.2⟩
      hostFits := lt_of_le_of_lt (cString_length_le host) fits.2.2
      hostText := zero_notMem_cString host }
  else none

def kClusterIndex (nodes : List NodeSpec) (id : Int) : Option Nat :=
  nodes.findIdx? (fun node => node.id == id)

/-- The slot an id goes to: its own, else the first freed one, else a new one. -/
def slotFor (nodes : List NodeSpec) (id : Int) : Nat :=
  ((kClusterIndex nodes id).or (kClusterIndex nodes 0)).getD nodes.length

/-- The book with `spec` in slot `index`, which may be one past the end. -/
def putSlot (nodes : List NodeSpec) (index : Nat) (spec : NodeSpec) : List NodeSpec :=
  if index < nodes.length then nodes.set index spec else nodes ++ [spec]

theorem kClusterIndex_some {nodes : List NodeSpec} {id : Int} {index : Nat}
    (found : kClusterIndex nodes id = some index) :
    ∃ spec, nodes[index]? = some spec ∧ spec.id = id := by
  obtain ⟨bound, same, -⟩ := List.findIdx?_eq_some_iff_getElem.mp found
  exact ⟨nodes[index], List.getElem?_eq_getElem bound, by simpa using same⟩

theorem kClusterIndex_none {nodes : List NodeSpec} {id : Int}
    (missing : kClusterIndex nodes id = none) : ∀ spec ∈ nodes, spec.id ≠ id := by
  intro spec inside
  simpa using List.findIdx?_eq_none_iff.mp missing spec inside

/-- Nothing else in the book carries the id when it goes to its slot. -/
theorem slotFor_free {nodes : List NodeSpec} {id : Int} {other : Nat} {spec : NodeSpec}
    (distinct : Distinct nodes)
    (live : id ≠ 0) (elsewhere : other ≠ slotFor nodes id) (at_other : nodes[other]? = some spec) :
    spec.id ≠ id := by
  intro same
  cases found : kClusterIndex nodes id with
  | none => exact kClusterIndex_none found spec (List.mem_of_getElem? at_other) same
  | some index =>
    obtain ⟨own, at_index, ownId⟩ := kClusterIndex_some found
    have slot : slotFor nodes id = index := by simp [slotFor, found]
    apply elsewhere
    rw [slot]
    exact distinct other index spec own at_other at_index (same.trans ownId.symm) (same ▸ live)

theorem putSlot_getElem? {nodes : List NodeSpec} {index : Nat} (spec : NodeSpec)
    (reach : index ≤ nodes.length) (i : Nat) :
    (putSlot nodes index spec)[i]? = if i = index then some spec else nodes[i]? := by
  unfold putSlot
  by_cases inside : index < nodes.length
  · rw [if_pos inside, List.getElem?_set]
    by_cases same : index = i
    · subst same
      simp [inside]
    · simp [same, Ne.symm same]
  · have last : index = nodes.length := by omega
    rw [if_neg inside, last, List.getElem?_append]
    rcases lt_trichotomy i nodes.length with low | rfl | high
    · simp [low, Nat.ne_of_lt low]
    · simp
    · simp [Nat.not_lt.mpr (le_of_lt high), Nat.ne_of_gt high,
        Nat.sub_eq_zero_iff_le, Nat.not_le.mpr high]

theorem slotFor_le (nodes : List NodeSpec) (id : Int) : slotFor nodes id ≤ nodes.length := by
  have bound {target : Int} {index : Nat} (found : kClusterIndex nodes target = some index) :
      index ≤ nodes.length := by
    obtain ⟨spec, at_index, -⟩ := kClusterIndex_some found
    exact le_of_lt (List.getElem?_eq_some_iff.mp at_index).1
  unfold slotFor
  cases own : kClusterIndex nodes id with
  | some index => simpa [own] using bound own
  | none =>
    cases freed : kClusterIndex nodes 0 with
    | some index => simpa [own, freed] using bound freed
    | none => simp

/-- Grow or update the book; `none` for a bad argument or a full book. -/
def kServerAddAddress (cluster : Cluster) (id : Int) (host : List UInt8)
    (clientPort peerPort : UInt16) : Option Cluster :=
  match made : nodeSpec id host clientPort peerPort with
  | none => none
  | some spec =>
    if room : slotFor cluster.nodes spec.id < maxNodes then
      some {
        nodes := putSlot cluster.nodes (slotFor cluster.nodes spec.id) spec
        bounded := by
          have bounded := cluster.bounded
          unfold putSlot
          split
          · simpa using bounded
          · rw [List.length_append, List.length_singleton]
            omega
        distinct := by
          have live : spec.id ≠ 0 := by
            unfold nodeSpec at made
            split at made
            · next fits =>
              cases made
              exact ne_of_gt fits.1.1
            · cases made
          intro i j a b at_i at_j same alive
          rw [putSlot_getElem? spec (slotFor_le _ _)] at at_i at_j
          by_cases first : i = slotFor cluster.nodes spec.id
          · rw [if_pos first] at at_i
            cases at_i
            by_cases second : j = slotFor cluster.nodes spec.id
            · rw [first, second]
            · rw [if_neg second] at at_j
              exact absurd same.symm (slotFor_free cluster.distinct live second at_j)
          · rw [if_neg first] at at_i
            by_cases second : j = slotFor cluster.nodes spec.id
            · rw [if_pos second] at at_j
              cases at_j
              exact absurd same (slotFor_free cluster.distinct live first at_i)
            · rw [if_neg second] at at_j
              exact cluster.distinct i j a b at_i at_j same alive }
    else none

/-- The member sets the server knows. -/
structure Members where
  voters : List Int
  learners : List Int
  pending : List Int
deriving DecidableEq, Repr

def kMembershipContains (members : Members) (id : Int) : Bool :=
  members.voters.contains id || members.learners.contains id || members.pending.contains id

/-- One slot of the pruning pass: an established member set frees the slot of
every other node that is not a member. -/
def pruneSlot (members : Members) (self : Int) (node : NodeSpec) : NodeSpec :=
  if kMembershipContains members node.id then node
  else if 1 < members.voters.length ∧ node.id ≠ self then
    { node with id := 0, idFits := by decide }
  else node

theorem pruneSlot_id (members : Members) (self : Int) (node : NodeSpec) :
    (pruneSlot members self node).id = node.id ∨ (pruneSlot members self node).id = 0 := by
  unfold pruneSlot
  split
  · exact Or.inl rfl
  · split
    · exact Or.inr rfl
    · exact Or.inl rfl

/-- The book after a reconnect pass over all slots. A stopping server and one
that a finished removal keeps silent leave it alone. -/
def kServerReconnect (admission silentStandby : Bool) (members : Members) (self : Int)
    (cluster : Cluster) : Cluster :=
  if !admission || silentStandby then cluster
  else {
    nodes := cluster.nodes.map (pruneSlot members self)
    bounded := by simpa using cluster.bounded
    distinct := by
      intro i j a b at_i at_j same alive
      rw [List.getElem?_map, Option.map_eq_some_iff] at at_i at_j
      obtain ⟨before, was, rfl⟩ := at_i
      obtain ⟨other, stood, rfl⟩ := at_j
      rcases pruneSlot_id members self before with kept | freed
      · rcases pruneSlot_id members self other with keptOther | freedOther
        · rw [kept, keptOther] at same
          exact cluster.distinct i j before other was stood same (kept ▸ alive)
        · exact absurd (same.trans freedOther) alive
      · exact absurd freed alive }

/-- A peer that says hello is learned unless its id is already in the book. The
node's own id is refused. -/
def kServerPeerHello (cluster : Cluster) (self id : Int) (host : List UInt8)
    (clientPort peerPort : UInt16) : Option Cluster :=
  if host.length < 1 ∨ hostMax ≤ host.length ∨ id = self then none
  else if (kClusterIndex cluster.nodes id).isSome then some cluster
  else kServerAddAddress cluster id host clientPort peerPort

end Kynovo.Server.AddressBook
