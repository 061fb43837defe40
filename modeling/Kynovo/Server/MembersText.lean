import Kynovo.Server.AddressBook
import Kynovo.Server.Strtou64

/-! The members as text: the server writes its address book for clients as one line, and
the client, like the server's own command line, reads such a line back. -/
namespace Kynovo.Server.MembersText
open Kynovo.Wal.Record
open Kynovo.Server.AddressBook
open Kynovo.Server.Command
open Kynovo.Server.Strtou64

def comma : UInt8 := 44
def colon : UInt8 := 58
def atSign : UInt8 := 64

/-! ## Writing -/

def nodeText (node : NodeSpec) : List UInt8 :=
  decimal node.id.toNat ++ atSign :: (node.host ++ colon :: (decimal node.clientPort.toNat ++
    colon :: decimal node.peerPort.toNat))

def kServerMembersBuild (nodes : List NodeSpec) : List UInt8 :=
  nodes.foldl (fun body node =>
    if node.id ≤ 0 then body
    else (if body.isEmpty then body else body ++ [comma]) ++ nodeText node) []

/-! ## Reading -/

/-- The text before the first separator, and the text behind it. -/
def cutAt (sep : UInt8) : List UInt8 → Option (List UInt8 × List UInt8)
  | [] => none
  | c :: rest =>
    if c = sep then some ([], rest)
    else (cutAt sep rest).map (fun parts => (c :: parts.1, parts.2))

/-- The C library's `strtoul` reads base 10 as `kStrtou64` does. -/
def kParseUint (text : List UInt8) (maxValue : Nat) : Option Nat :=
  if text.isEmpty then none
  else
    let (value, used) := kStrtou64 text 10
    if used ≠ text.length ∨ value = 0 ∨ maxValue < value then none else some value

/-- One item of the line. -/
def parseItem (item : List UInt8) : Option NodeSpec := do
  let (idText, behindAt) ← cutAt atSign item
  let (host, behindHost) ← cutAt colon behindAt
  let (clientText, peerText) ← cutAt colon behindHost
  if colon ∈ peerText ∨ host.isEmpty ∨ hostMax ≤ host.length then none
  else
    let id ← kParseUint idText 2147483647
    let clientPort ← kParseUint clientText 65535
    let peerPort ← kParseUint peerText 65535
    nodeSpec id host (UInt16.ofNat clientPort) (UInt16.ofNat peerPort)

/-- The next item and the text behind its comma. -/
def nextItem (cursor : List UInt8) : List UInt8 × Option (List UInt8) :=
  match cutAt comma cursor with
  | some (item, rest) => (item, some rest)
  | none => (cursor, none)

/-- The items from the cursor on, behind those already read. Every turn adds one, and
`room` turns are never used up: a full cluster takes no further item. -/
def parseFrom : Nat → List NodeSpec → List UInt8 → Option (List NodeSpec)
  | 0, _, _ => none
  | room + 1, nodes, cursor =>
    if cursor.isEmpty then some nodes
    else
      let (item, rest) := nextItem cursor
      if item.isEmpty ∨ 192 ≤ item.length ∨ maxNodes ≤ nodes.length then none
      else
        match parseItem item with
        | none => none
        | some node =>
          if nodes.any (fun known => known.id == node.id) then none
          else
            match rest with
            | none => some (nodes ++ [node])
            | some cursor => parseFrom room (nodes ++ [node]) cursor

/-- The text is a C string, so it holds no zero byte. -/
def kClusterParse (text : List UInt8) : Option (List NodeSpec) :=
  if text.isEmpty then none
  else (parseFrom (maxNodes + 1) [] text).filter (fun nodes => !nodes.isEmpty)

/-! ## What the reader accepts -/

/-- A node that the text can carry. -/
structure Readable (node : NodeSpec) : Prop where
  named : node.host ≠ []
  noComma : comma ∉ node.host
  noColon : colon ∉ node.host
  clientPort : node.clientPort ≠ 0
  peerPort : node.peerPort ≠ 0

theorem cutAt_some {sep : UInt8} {text front back : List UInt8}
    (cut : cutAt sep text = some (front, back)) : text = front ++ sep :: back ∧ sep ∉ front := by
  induction text generalizing front with
  | nil => cases cut
  | cons c rest ih =>
    unfold cutAt at cut
    split at cut
    · rename_i same
      cases cut
      exact ⟨by rw [same]; rfl, List.not_mem_nil⟩
    · rename_i other
      obtain ⟨⟨front', back'⟩, inner, shape⟩ := Option.map_eq_some_iff.mp cut
      cases shape
      obtain ⟨whole, absent⟩ := ih inner
      refine ⟨by rw [whole]; rfl, ?_⟩
      rintro (_ | ⟨_, inside⟩)
      · exact other rfl
      · exact absent inside

theorem cutAt_append {sep : UInt8} {front : List UInt8} (absent : sep ∉ front) (back : List UInt8) :
    cutAt sep (front ++ sep :: back) = some (front, back) := by
  induction front with
  | nil => simp [cutAt]
  | cons c front ih =>
    have other : c ≠ sep := fun same => absent (by simp [same])
    rw [List.cons_append, cutAt, if_neg other, ih (fun inside => absent (List.mem_cons_of_mem _ inside))]
    rfl

theorem cutAt_none {sep : UInt8} {text : List UInt8} (absent : sep ∉ text) : cutAt sep text = none := by
  cases cut : cutAt sep text with
  | none => rfl
  | some parts =>
    obtain ⟨front, back⟩ := parts
    obtain ⟨whole, -⟩ := cutAt_some cut
    exact absurd (by rw [whole]; simp) absent

theorem kParseUint_some {text : List UInt8} {maxValue value : Nat}
    (read : kParseUint text maxValue = some value) : 1 ≤ value ∧ value ≤ maxValue := by
  unfold kParseUint at read
  split at read
  · cases read
  · dsimp only at read
    split at read
    · cases read
    · rename_i fits
      push Not at fits
      cases read
      exact ⟨Nat.one_le_iff_ne_zero.mpr fits.2.1, fits.2.2⟩

theorem nodeSpec_some {id : Int} {host : List UInt8} {clientPort peerPort : UInt16} {node : NodeSpec}
    (made : nodeSpec id host clientPort peerPort = some node) :
    node.id = id ∧ node.host = cString host ∧ node.clientPort = clientPort ∧
      node.peerPort = peerPort := by
  unfold nodeSpec at made
  split at made
  · cases made
    exact ⟨rfl, rfl, rfl, rfl⟩
  · cases made

/-- A port that was read is not zero. -/
theorem port_ne_zero {text : List UInt8} {port : Nat} (read : kParseUint text 65535 = some port) :
    UInt16.ofNat port ≠ 0 := by
  obtain ⟨positive, small⟩ := kParseUint_some read
  intro zero
  have value := congrArg UInt16.toNat zero
  rw [UInt16.toNat_ofNat_of_lt' (by change port < 65536; omega)] at value
  simp at value
  omega

/-- An item that is accepted names a readable node. -/
theorem parseItem_readable {item : List UInt8} {node : NodeSpec} (accepted : parseItem item = some node)
    (text : (0 : UInt8) ∉ item) (noComma : comma ∉ item) : Readable node := by
  simp only [parseItem, Option.bind_eq_bind, Option.bind_eq_some_iff] at accepted
  obtain ⟨⟨idText, behindAt⟩, first, ⟨host, behindHost⟩, second, ⟨clientText, peerText⟩, third,
    body⟩ := accepted
  dsimp only at second third body
  split at body
  · cases body
  · rename_i filled
    push Not at filled
    obtain ⟨id, -, clientPort, client, peerPort, peer, made⟩ := by
      simpa only [Option.bind_eq_some_iff] using body
    obtain ⟨whole, -⟩ := cutAt_some first
    obtain ⟨inner, noColon⟩ := cutAt_some second
    have within : ∀ c ∈ host, c ∈ item := by
      intro c inside
      rw [whole, inner]
      simp [inside]
    obtain ⟨-, hostIs, clientIs, peerIs⟩ := nodeSpec_some made
    have same : node.host = host := by
      rw [hostIs, cString_eq_self (fun inside => text (within 0 inside))]
    refine ⟨?_, ?_, ?_, ?_, ?_⟩
    · rw [same]
      simpa using filled.2.1
    · rw [same]
      exact fun inside => noComma (within _ inside)
    · rw [same]
      exact noColon
    · rw [clientIs]
      exact port_ne_zero client
    · rw [peerIs]
      exact port_ne_zero peer

theorem nextItem_mem {cursor : List UInt8} {c : UInt8} (inside : c ∈ (nextItem cursor).1) :
    c ∈ cursor ∧ c ≠ comma := by
  unfold nextItem at inside
  split at inside
  · rename_i item rest cut
    obtain ⟨whole, absent⟩ := cutAt_some cut
    refine ⟨by rw [whole]; simp [inside], ?_⟩
    rintro rfl
    exact absent inside
  · rename_i uncut
    have here : c ∈ cursor := inside
    refine ⟨here, ?_⟩
    rintro rfl
    obtain ⟨front, back, whole, absent⟩ := List.eq_append_cons_of_mem here
    rw [whole, cutAt_append absent] at uncut
    cases uncut

theorem nextItem_rest {cursor rest : List UInt8} (more : (nextItem cursor).2 = some rest) :
    ∀ c ∈ rest, c ∈ cursor := by
  unfold nextItem at more
  split at more
  · rename_i cut
    obtain ⟨whole, -⟩ := cutAt_some cut
    cases more
    intro c inside
    rw [whole]
    simp [inside]
  · cases more

/-- Everything a line is read to is readable. -/
theorem parseFrom_readable {room : Nat} {nodes found : List NodeSpec} {cursor : List UInt8}
    (accepted : parseFrom room nodes cursor = some found) (text : (0 : UInt8) ∉ cursor)
    (before : ∀ node ∈ nodes, Readable node) : ∀ node ∈ found, Readable node := by
  induction room generalizing nodes cursor with
  | zero => cases accepted
  | succ room ih =>
    unfold parseFrom at accepted
    split at accepted
    · cases accepted
      exact before
    · dsimp only at accepted
      split at accepted
      · cases accepted
      · split at accepted
        · cases accepted
        · rename_i node item
          split at accepted
          · cases accepted
          · have added : ∀ known ∈ nodes ++ [node], Readable known := by
              intro known inside
              rcases List.mem_append.mp inside with old | last
              · exact before known old
              · rw [List.mem_singleton.mp last]
                exact parseItem_readable item (fun inside => text (nextItem_mem inside).1)
                  (fun inside => (nextItem_mem inside).2 rfl)
            split at accepted
            · cases accepted
              exact added
            · rename_i rest more
              exact ih accepted (fun inside => text (nextItem_rest more 0 inside)) added

/-! ## Reading back -/

theorem decimal_plain {n : Nat} {c : UInt8} (inside : c ∈ decimal n) : 48 ≤ c ∧ c ≤ 57 := by
  obtain ⟨⟨d, known, small⟩, -⟩ := decimal_digits n c inside
  unfold digitOf at known
  split at known
  · assumption
  · split at known
    · cases known
      omega
    · split at known
      · cases known
        omega
      · cases known

theorem separator_notMem_decimal (n : Nat) {sep : UInt8} (apart : ¬(48 ≤ sep ∧ sep ≤ 57)) :
    sep ∉ decimal n := fun inside => apart (decimal_plain inside)

theorem decimal_length_le {n digits : Nat} (some : 0 < digits) (fits : n < 10 ^ digits) :
    (decimal n).length ≤ digits := by
  rw [decimal, List.length_map]
  exact Nat.toDigits_length 10 n digits some fits

theorem decimal_isEmpty (n : Nat) : (decimal n).isEmpty = false := by
  by_cases small : n < 10
  · rw [decimal_small small]
    rfl
  · rw [decimal_large (by omega)]
    simp

theorem kParseUint_decimal {n maxValue : Nat} (positive : 1 ≤ n) (fits : n ≤ maxValue)
    (bounded : maxValue ≤ u64Max) : kParseUint (decimal n) maxValue = some n := by
  unfold kParseUint
  rw [decimal_isEmpty, kStrtou64_numeral (fits.trans bounded)]
  simp only [Bool.false_eq_true, if_false]
  rw [if_neg]
  push Not
  exact ⟨rfl, by omega, fits⟩

theorem nodeSpec_self {node : NodeSpec} (live : 0 < node.id) (named : node.host ≠ []) :
    nodeSpec node.id node.host node.clientPort node.peerPort = some node := by
  have filled : 1 ≤ node.host.length := List.length_pos_iff.mpr named
  unfold nodeSpec
  rw [dif_pos ⟨⟨live, node.idFits.2⟩, filled, node.hostFits⟩]
  have same := cString_eq_self node.hostText
  obtain ⟨id, host, clientPort, peerPort, idFits, hostFits, hostText⟩ := node
  simp only [Option.some.injEq, NodeSpec.mk.injEq, true_and, and_true]
  exact same

theorem parseItem_nodeText {node : NodeSpec} (live : 0 < node.id) (readable : Readable node) :
    parseItem (nodeText node) = some node := by
  have idBound := node.idFits.2
  have idIs : ((node.id.toNat : Nat) : Int) = node.id := Int.toNat_of_nonneg live.le
  have first : cutAt atSign (nodeText node) = _ :=
    cutAt_append (separator_notMem_decimal node.id.toNat (by decide)) _
  have second := cutAt_append readable.noColon (decimal node.clientPort.toNat ++
    colon :: decimal node.peerPort.toNat)
  have third := cutAt_append (separator_notMem_decimal node.clientPort.toNat
    (show ¬(48 ≤ colon ∧ colon ≤ 57) by decide)) (decimal node.peerPort.toNat)
  have clientBound := node.clientPort.toNat_lt
  have peerBound := node.peerPort.toNat_lt
  have clientPositive : 1 ≤ node.clientPort.toNat := by
    by_contra zero
    exact readable.clientPort (UInt16.toNat_inj.mp (by simpa using zero))
  have peerPositive : 1 ≤ node.peerPort.toNat := by
    by_contra zero
    exact readable.peerPort (UInt16.toNat_inj.mp (by simpa using zero))
  have filled : ¬(colon ∈ decimal node.peerPort.toNat ∨ node.host.isEmpty ∨
      hostMax ≤ node.host.length) := by
    push Not
    exact ⟨separator_notMem_decimal _ (by decide), by simpa using readable.named, node.hostFits⟩
  have idRead : kParseUint (decimal node.id.toNat) 2147483647 = some node.id.toNat :=
    kParseUint_decimal (by omega) (by omega) (by decide)
  have clientRead : kParseUint (decimal node.clientPort.toNat) 65535 = some node.clientPort.toNat :=
    kParseUint_decimal clientPositive (by omega) (by decide)
  have peerRead : kParseUint (decimal node.peerPort.toNat) 65535 = some node.peerPort.toNat :=
    kParseUint_decimal peerPositive (by omega) (by decide)
  simp only [parseItem, first, second, third, Option.bind_eq_bind, Option.bind_some, if_neg filled,
    idRead, clientRead, peerRead]
  rw [idIs, UInt16.ofNat_toNat, UInt16.ofNat_toNat]
  exact nodeSpec_self live readable.named

theorem nodeText_ne_nil (node : NodeSpec) : nodeText node ≠ [] := by simp [nodeText]

theorem nodeText_length (node : NodeSpec) : (nodeText node).length < 192 := by
  have idDigits := @decimal_length_le node.id.toNat _ (show 0 < 10 by decide)
    (by have bound := node.idFits.2; omega)
  have clientDigits := @decimal_length_le node.clientPort.toNat _ (show 0 < 5 by decide)
    (by have bound := node.clientPort.toNat_lt; omega)
  have peerDigits := @decimal_length_le node.peerPort.toNat _ (show 0 < 5 by decide)
    (by have bound := node.peerPort.toNat_lt; omega)
  have hostBound := node.hostFits
  simp only [hostMax] at hostBound
  simp only [nodeText, List.length_append, List.length_cons]
  omega

theorem mem_nodeText {node : NodeSpec} {c : UInt8} (inside : c ∈ nodeText node) :
    (48 ≤ c ∧ c ≤ 57) ∨ c = atSign ∨ c = colon ∨ c ∈ node.host := by
  simp only [nodeText, List.mem_append, List.mem_cons] at inside
  rcases inside with id | sign | host | sep | client | sep | peer
  · exact .inl (decimal_plain id)
  · exact .inr (.inl sign)
  · exact .inr (.inr (.inr host))
  · exact .inr (.inr (.inl sep))
  · exact .inl (decimal_plain client)
  · exact .inr (.inr (.inl sep))
  · exact .inl (decimal_plain peer)

theorem comma_notMem_nodeText {node : NodeSpec} (readable : Readable node) :
    comma ∉ nodeText node := by
  intro inside
  rcases mem_nodeText inside with digit | sign | sep | host
  · revert digit
    decide
  · cases sign
  · cases sep
  · exact readable.noComma host

theorem zero_notMem_nodeText (node : NodeSpec) : (0 : UInt8) ∉ nodeText node := by
  intro inside
  rcases mem_nodeText inside with digit | sign | sep | host
  · revert digit
    decide
  · cases sign
  · cases sep
  · exact node.hostText host

/-- The members a book lists: the slots that are not freed. -/
def members (nodes : List NodeSpec) : List NodeSpec := nodes.filter (fun node => decide (0 < node.id))

/-- The line of a list of members. -/
def line : List NodeSpec → List UInt8
  | [] => []
  | node :: rest => nodeText node ++ rest.flatMap (fun node => comma :: nodeText node)

theorem line_append (nodes : List NodeSpec) (node : NodeSpec) :
    line (nodes ++ [node]) =
      (if (line nodes).isEmpty then line nodes else line nodes ++ [comma]) ++ nodeText node := by
  cases nodes with
  | nil => simp [line]
  | cons first rest => simp [line, nodeText_ne_nil]

theorem kServerMembersBuild_line (nodes : List NodeSpec) :
    kServerMembersBuild nodes = line (members nodes) := by
  have built : ∀ before, nodes.foldl (fun body node =>
      if node.id ≤ 0 then body
      else (if body.isEmpty then body else body ++ [comma]) ++ nodeText node) (line before) =
      line (before ++ members nodes) := by
    induction nodes with
    | nil =>
      intro before
      simp [members]
    | cons node rest ih =>
      intro before
      rw [List.foldl_cons]
      by_cases live : 0 < node.id
      · rw [if_neg (by omega), ← line_append, ih]
        simp [members, live]
      · rw [if_pos (by omega), ih]
        simp [members, live]
  exact built []

theorem zero_notMem_line (nodes : List NodeSpec) : (0 : UInt8) ∉ line nodes := by
  cases nodes with
  | nil => exact List.not_mem_nil
  | cons first rest =>
    simp only [line, List.mem_append, List.mem_flatMap, List.mem_cons, not_or, not_exists, not_and]
    exact ⟨zero_notMem_nodeText first, fun node _ => ⟨by decide, zero_notMem_nodeText node⟩⟩

/-- One turn of the reader, at the text of a readable member. -/
theorem parseFrom_turn {room : Nat} {node : NodeSpec} {before : List NodeSpec} {cursor : List UInt8}
    {more : Option (List UInt8)} (item : nextItem cursor = (nodeText node, more))
    (filled : cursor ≠ []) (live : 0 < node.id) (readable : Readable node)
    (fresh : ∀ known ∈ before, known.id ≠ node.id) (fits : before.length < maxNodes) :
    parseFrom (room + 1) before cursor =
      more.elim (some (before ++ [node])) (parseFrom room (before ++ [node])) := by
  have open' : cursor.isEmpty = false := by simpa using filled
  have proper : ¬((nodeText node).isEmpty ∨ 192 ≤ (nodeText node).length ∨
      maxNodes ≤ before.length) := by
    push Not
    exact ⟨by simpa using nodeText_ne_nil node, nodeText_length node, fits⟩
  have unknown : ¬(before.any (fun known => known.id == node.id)) = true := by
    simpa using fresh
  conv_lhs => unfold parseFrom
  simp only [open', item, Bool.false_eq_true, if_false, if_neg proper,
    parseItem_nodeText live readable, if_neg unknown]
  cases more with
  | none => rfl
  | some cursor => rfl

theorem nextItem_last {node : NodeSpec} (readable : Readable node) :
    nextItem (line [node]) = (nodeText node, none) := by
  have whole : line [node] = nodeText node := by simp [line]
  rw [whole, nextItem, cutAt_none (comma_notMem_nodeText readable)]

theorem nextItem_line {node next : NodeSpec} (rest : List NodeSpec) (readable : Readable node) :
    nextItem (line (node :: next :: rest)) = (nodeText node, some (line (next :: rest))) := by
  have whole : line (node :: next :: rest) = nodeText node ++ comma :: line (next :: rest) := by
    simp [line]
  rw [whole, nextItem, cutAt_append (comma_notMem_nodeText readable)]

/-- A line of readable members is read back, one item a turn. -/
theorem parseFrom_line {room : Nat} {node : NodeSpec} {rest before : List NodeSpec}
    (readable : ∀ known ∈ node :: rest, 0 < known.id ∧ Readable known)
    (apart : (before ++ node :: rest).Pairwise (fun a b => a.id ≠ b.id))
    (enough : rest.length < room) (fits : (before ++ node :: rest).length ≤ maxNodes) :
    parseFrom room before (line (node :: rest)) = some (before ++ node :: rest) := by
  induction rest generalizing room node before with
  | nil =>
    obtain ⟨room, rfl⟩ := Nat.exists_eq_succ_of_ne_zero (Nat.ne_of_gt enough)
    obtain ⟨live, clean⟩ := readable node List.mem_cons_self
    have fresh : ∀ known ∈ before, known.id ≠ node.id := by
      intro known inside
      exact (List.pairwise_append.mp apart).2.2 known inside node List.mem_cons_self
    have room' : before.length < maxNodes := by
      simp only [List.length_append, List.length_cons, List.length_nil] at fits
      omega
    rw [parseFrom_turn (nextItem_last clean) (by simp [line, nodeText_ne_nil]) live clean fresh room']
    rfl
  | cons next rest ih =>
    obtain ⟨room, rfl⟩ := Nat.exists_eq_succ_of_ne_zero (Nat.ne_of_gt (Nat.zero_lt_of_lt enough))
    obtain ⟨live, clean⟩ := readable node List.mem_cons_self
    have fresh : ∀ known ∈ before, known.id ≠ node.id := by
      intro known inside
      exact (List.pairwise_append.mp apart).2.2 known inside node List.mem_cons_self
    have room' : before.length < maxNodes := by
      simp only [List.length_append, List.length_cons] at fits
      omega
    have regroup : before ++ node :: next :: rest = (before ++ [node]) ++ next :: rest := by simp
    rw [parseFrom_turn (nextItem_line rest clean) (by simp [line, nodeText_ne_nil]) live clean fresh
      room', Option.elim_some]
    rw [regroup] at apart fits ⊢
    exact ih (fun known inside => readable known (List.mem_cons_of_mem _ inside)) apart
      (by simpa using enough) fits

theorem members_apart {nodes : List NodeSpec} (distinct : Distinct nodes) :
    (members nodes).Pairwise (fun a b => a.id ≠ b.id) := by
  have slots : nodes.Pairwise (fun a b => a.id = b.id → a.id = 0) := by
    rw [List.pairwise_iff_getElem]
    intro i j iBound jBound less same
    by_contra live
    have equal := distinct i j nodes[i] nodes[j] (List.getElem?_eq_getElem iBound)
      (List.getElem?_eq_getElem jBound) same live
    omega
  refine (slots.filter _).imp_of_mem ?_
  intro a b inside _ only same
  have live := (List.mem_filter.mp inside).2
  simp only [decide_eq_true_eq] at live
  have zero := only same
  omega

/-- A client reads back exactly the members the server lists when there is one and the
host of each can stand in the line and its ports are set. -/
theorem members_round_trip_iff (cluster : Cluster) :
    kClusterParse (kServerMembersBuild cluster.nodes) = some (members cluster.nodes) ↔
      members cluster.nodes ≠ [] ∧ ∀ node ∈ members cluster.nodes, Readable node := by
  rw [kServerMembersBuild_line]
  constructor
  · intro read
    unfold kClusterParse at read
    split at read
    · cases read
    · obtain ⟨found, filled⟩ := Option.filter_eq_some_iff.mp read
      refine ⟨by simpa using filled, ?_⟩
      exact parseFrom_readable found (zero_notMem_line _) (fun node inside => absurd inside
        List.not_mem_nil)
  · rintro ⟨some, readable⟩
    obtain ⟨node, rest, shape⟩ := List.exists_cons_of_ne_nil some
    have apart := members_apart cluster.distinct
    have live : ∀ node ∈ members cluster.nodes, 0 < node.id := by
      intro node inside
      simpa using (List.mem_filter.mp inside).2
    have bounded : (members cluster.nodes).length ≤ maxNodes :=
      (List.length_filter_le _ _).trans cluster.bounded
    rw [shape] at readable apart live bounded ⊢
    have turns : rest.length < maxNodes + 1 := by
      simp only [List.length_cons] at bounded
      omega
    have read := @parseFrom_line (maxNodes + 1) node rest []
      (fun known inside => ⟨live known inside, readable known inside⟩) apart turns bounded
    have filled : (line (node :: rest)).isEmpty = false := by simp [line, nodeText_ne_nil]
    unfold kClusterParse
    rw [filled, read]
    rfl

/-- The loopback address of the sixth version, as a host. -/
def loopback : List UInt8 := [58, 58, 49]

/-- A book that accepted such a host cannot be read by any client. -/
theorem loopback_members_refused : ∃ cluster,
    kServerAddAddress .empty 1 loopback 7000 7001 = some cluster ∧
      members cluster.nodes ≠ [] ∧ kClusterParse (kServerMembersBuild cluster.nodes) = none := by
  refine ⟨_, rfl, ?_, ?_⟩
  · decide
  · decide +kernel

end Kynovo.Server.MembersText
