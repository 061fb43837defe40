import Kynovo.Proto.Fields
import Kynovo.Server.Admission

/-! The payloads between clients and servers: requests as the client builds them
and the server's dispatcher reads them, and responses as the server builds them
and the client decodes them. -/
namespace Kynovo.Proto.ClientCodec
open Kynovo.Lib
open Kynovo.Lib.LittleEndian
open Kynovo.Wal.Record (maxNodes kReaderBytes kReaderU8 kReaderU32 kReaderI32 kReaderUnsigned)
open Kynovo.Proto.Fields
open Kynovo.Server.AddressBook
open Kynovo.Server.Command
open Kynovo.Server.Admission

/-! ## Requests -/

/-- What follows the request id. A batch and a membership change travel whole in
the key; a range read has its own builder. -/
def requestBody (type : RequestType) (key value : List UInt8) : Option (List UInt8) :=
  match type with
  | .set | .fcall | .cas | .rset => if key = [] then none else some (sized key ++ sized value)
  | .rdel | .count | .min | .max => some (sized key ++ sized value)
  | .get | .del => if key = [] then none else some (sized key)
  | .mset | .mdel | .mget | .member => if key = [] then none else some key
  | .info | .shutdown | .help | .stats | .members | .topology => some []
  | .rget => none

def kRequestPayload (requestId : UInt32) (type : RequestType) (key value : List UInt8) :
    Option (List UInt8) := do
  if key.length > frameMax ∨ value.length > casPackedMax then none
  else
    let body ← requestBody type key value
    let payload := leBytes 4 requestId.toNat ++ body
    if payload.length > frameMax then none else return payload

/-- Scan directions: ascending 0, descending 1. -/
def kRgetRequestPayload (requestId : UInt32) (first last : List UInt8) (direction : Nat)
    (limit : UInt32) : Option (List UInt8) :=
  if first.length > keyMax ∨ last.length > keyMax ∨ (direction ≠ 0 ∧ direction ≠ 1) then none
  else
    let payload := leBytes 4 requestId.toNat ++ (sized first ++ (sized last ++
      (leBytes 1 direction ++ leBytes 4 limit.toNat)))
    if payload.length > frameMax then none else some payload

/-- What the dispatcher makes of a frame: a request for `k_server_submit`, a
range read, a membership change, or a command it answers itself. -/
inductive Parsed where
  | submit (request : Request)
  | rangeRead (first last : List UInt8) (direction limit : Nat)
  | member (subcmd : Nat) (ids : List Int)
  | answered (type : RequestType)
deriving DecidableEq

def memberAdd : Nat := 1
def memberRemove : Nat := 2
def memberReconfig : Nat := 3

/-- The limit may be missing at the end. -/
def parseRangeRead (bytes : List UInt8) : Option Parsed := do
  let (first, rest) ← readSized 0 keyMax bytes
  let (last, rest) ← readSized 0 keyMax rest
  let (direction, rest) ← kReaderU8 rest
  let (limit, rest) ← if rest = [] then some (0, rest) else kReaderU32 rest
  if rest ≠ [] ∨ (direction ≠ 0 ∧ direction ≠ 1) then none
  else return .rangeRead first last direction limit

/-- ADD: every node comes with its address, which is entered into the book as
soon as it is read. -/
def readAdded : Nat → Cluster → List UInt8 → Option (List Int × Cluster × List UInt8)
  | 0, cluster, bytes => some ([], cluster, bytes)
  | count + 1, cluster, bytes => do
    let (id, rest) ← kReaderI32 bytes
    let (host, rest) ← readSized 1 (hostMax - 1) rest
    let (clientPort, rest) ← kReaderU16 rest
    let (peerPort, rest) ← kReaderU16 rest
    let cluster ← kServerAddAddress cluster id host (UInt16.ofNat clientPort) (UInt16.ofNat peerPort)
    let (ids, cluster, rest) ← readAdded count cluster rest
    return (id :: ids, cluster, rest)

def parseMember (cluster : Cluster) (bytes : List UInt8) : Option (Parsed × Cluster) := do
  let (subcmd, rest) ← kReaderU8 bytes
  let (count, rest) ← kReaderU32 rest
  if count < 1 ∨ maxNodes < count then none
  else
    let (ids, cluster, rest) ←
      if subcmd = memberAdd then readAdded count cluster rest
      else (Kynovo.Wal.Record.readIds count rest).map fun p => (p.1, cluster, p.2)
    if rest ≠ [] ∨ (subcmd ≠ memberAdd ∧ subcmd ≠ memberRemove ∧ subcmd ≠ memberReconfig) then none
    else return (.member subcmd ids, cluster)

/-- COUNT, MIN and MAX: two optional bounds. -/
def parseBounds (type : RequestType) (bytes : List UInt8) : Option Parsed := do
  let (first, rest) ← readSized 0 keyMax bytes
  let (last, rest) ← readSized 0 keyMax rest
  atEnd (.submit { type, key := first, value := last }) rest

/-- The whole dispatcher of client frames: the request id, what was asked, and
the address book as the frame leaves it. Only a membership change touches the
book. -/
def clientFrame (admission : Bool) (cluster : Cluster) (type : RequestType) (payload : List UInt8) :
    Option (Nat × Parsed × Cluster) := do
  let (requestId, rest) ← kReaderU32 payload
  if !admission && !servedWhileStopping type then none
  else
    match type with
    | .set | .get | .del | .cas | .rset | .rdel | .mset | .mdel | .mget | .fcall =>
      (kServerClientFrame admission type payload).map fun request =>
        (requestId, .submit request, cluster)
    | .rget => (parseRangeRead rest).map fun parsed => (requestId, parsed, cluster)
    | .member => (parseMember cluster rest).map fun p => (requestId, p.1, p.2)
    | .count | .min | .max => (parseBounds type rest).map fun parsed => (requestId, parsed, cluster)
    | .members => atEnd (requestId, .submit { type, key := [], value := [] }, cluster) rest
    | .help | .info | .stats | .topology | .shutdown =>
      atEnd (requestId, .answered type, cluster) rest

/-! ## Responses -/

structure Response where
  requestId : Nat
  status : Nat
  leaderId : Int
  host : List UInt8
  port : Nat
  body : List UInt8
deriving DecidableEq, Repr

def responseBytes (response : Response) : List UInt8 :=
  leBytes 4 response.requestId ++ (leBytes 1 response.status ++ (leBytesInt 4 response.leaderId ++
    (leBytes 2 response.host.length ++ (response.host ++ (leBytes 2 response.port ++
      (leBytes 4 response.body.length ++ response.body))))))

/-- The host is a C string, empty when there is none to name. -/
def kResponsePayload (response : Response) : Option (List UInt8) :=
  if response.host.length > 65535 then none
  else if (responseBytes response).length > frameMax then none
  else some (responseBytes response)

def readResponse (bytes : List UInt8) : Option (Response × List UInt8) := do
  let (requestId, rest) ← kReaderU32 bytes
  let (status, rest) ← kReaderU8 rest
  let (leaderId, rest) ← kReaderI32 rest
  let (hostLen, rest) ← kReaderU16 rest
  let (host, rest) ← kReaderBytes hostLen rest
  let (port, rest) ← kReaderU16 rest
  let (bodySize, rest) ← kReaderU32 rest
  let (body, rest) ← kReaderBytes bodySize rest
  return ({ requestId, status, leaderId, host, port, body }, rest)

/-- The host is kept as the C string in its buffer. -/
def kResponseDecode (bytes : List UInt8) : Option Response := do
  let (response, rest) ← readResponse bytes
  if rest ≠ [] ∨ response.host.length ≥ hostMax then none
  else return { response with host := cString response.host }

/-! ## What a client may send -/

def itemBytes (valued : Bool) (item : List UInt8 × List UInt8) : List UInt8 :=
  if valued then sized item.1 ++ sized item.2 else sized item.1

/-- The list a batch carries: MSET has a value with every key. -/
def batchBytes (valued : Bool) (items : List (List UInt8 × List UInt8)) : List UInt8 :=
  leBytes 4 items.length ++ items.flatMap (itemBytes valued)

def LegalItem (valued : Bool) (item : List UInt8 × List UInt8) : Prop :=
  1 ≤ item.1.length ∧ item.1.length ≤ keyMax ∧
    if valued then item.2.length ≤ valueMax else item.2 = []

def LegalBatch (valued : Bool) (list : List UInt8) : Prop :=
  ∃ items, items ≠ [] ∧ (∀ item ∈ items, LegalItem valued item) ∧ list = batchBytes valued items

/-- The limits of each request type; membership changes and range reads have
their own. -/
def Legal : RequestType → List UInt8 → List UInt8 → Prop
  | .get, key, value | .del, key, value => 1 ≤ key.length ∧ key.length ≤ keyMax ∧ value = []
  | .set, key, value => 1 ≤ key.length ∧ key.length ≤ keyMax ∧ value.length ≤ valueMax
  | .cas, key, value => 1 ≤ key.length ∧ key.length ≤ keyMax ∧ value.length ≤ casPackedMax
  | .rset, key, value => 1 ≤ key.length ∧ key.length ≤ 2 * keyMax + 8 ∧ value.length ≤ valueMax
  | .rdel, key, value | .count, key, value | .min, key, value | .max, key, value =>
    key.length ≤ keyMax ∧ value.length ≤ keyMax
  | .mset, key, value => LegalBatch true key ∧ value = []
  | .mdel, key, value | .mget, key, value => LegalBatch false key ∧ value = []
  | .fcall, key, value => 1 ≤ key.length ∧ key.length ≤ 64 ∧ value.length ≤ frameMax
  | .members, key, value | .info, key, value | .stats, key, value | .help, key, value
  | .topology, key, value | .shutdown, key, value => key = [] ∧ value = []
  | .rget, _, _ | .member, _, _ => False

def parsedOf (type : RequestType) (key value : List UInt8) : Parsed :=
  match type with
  | .info | .stats | .help | .topology | .shutdown => .answered type
  | _ => .submit { type, key, value }

/-- A node as a membership change names it. -/
structure Address where
  id : Int
  host : List UInt8
  clientPort : UInt16
  peerPort : UInt16
deriving DecidableEq

inductive Change where
  | add (addresses : List Address)
  | remove (ids : List Int)
  | reconfig (ids : List Int)
deriving DecidableEq

def addressBytes (address : Address) : List UInt8 :=
  leBytesInt 4 address.id ++ (sized address.host ++ (leBytes 2 address.clientPort.toNat ++
    leBytes 2 address.peerPort.toNat))

def Change.subcmd : Change → Nat
  | .add _ => memberAdd
  | .remove _ => memberRemove
  | .reconfig _ => memberReconfig

def Change.ids : Change → List Int
  | .add addresses => addresses.map Address.id
  | .remove ids | .reconfig ids => ids

def Change.addresses : Change → List Address
  | .add addresses => addresses
  | .remove _ | .reconfig _ => []

/-- The body of a membership request. -/
def Change.bytes : Change → List UInt8
  | .add addresses => leBytes 1 memberAdd ++ (leBytes 4 addresses.length ++
      addresses.flatMap addressBytes)
  | .remove ids => leBytes 1 memberRemove ++ (leBytes 4 ids.length ++ ids.flatMap (leBytesInt 4))
  | .reconfig ids => leBytes 1 memberReconfig ++ (leBytes 4 ids.length ++ ids.flatMap (leBytesInt 4))

structure Change.Legal (change : Change) : Prop where
  some : 1 ≤ change.ids.length
  few : change.ids.length ≤ maxNodes
  ids : ∀ id ∈ change.ids, FitsInt 4 id
  hosts : ∀ address ∈ change.addresses, 1 ≤ address.host.length ∧ address.host.length < hostMax

/-- The book with addresses entered one after the other. -/
def enterAll : Cluster → List Address → Option Cluster
  | cluster, [] => some cluster
  | cluster, address :: addresses => do
    let cluster ← kServerAddAddress cluster address.id address.host address.clientPort
      address.peerPort
    enterAll cluster addresses

/-! ## Agreement -/

theorem kReaderU32_append (value : UInt32) (rest : List UInt8) :
    kReaderU32 (leBytes 4 value.toNat ++ rest) = some (value.toNat, rest) := by
  have wide : value.toNat < 256 ^ 4 := value.toNat_lt
  exact (unsigned_codec 4).reads wide rest

theorem requestBody_of_legal {type : RequestType} {key value : List UInt8}
    (legal : Legal type key value) : ∃ body, requestBody type key value = some body := by
  have named {key : List UInt8} (length : 1 ≤ key.length) : key ≠ [] :=
    List.ne_nil_of_length_pos length
  have listed {valued : Bool} {list : List UInt8} (batch : LegalBatch valued list) : list ≠ [] := by
    obtain ⟨items, -, -, rfl⟩ := batch
    apply List.ne_nil_of_length_pos
    simp [batchBytes]
  cases type with
  | get | del | set | cas | rset | fcall => simp [requestBody, named legal.1]
  | rdel | count | min | max => exact ⟨_, rfl⟩
  | mset | mdel | mget => simp [requestBody, listed legal.1]
  | members | info | stats | help | topology | shutdown => exact ⟨_, rfl⟩
  | rget | member => exact legal.elim

theorem kRequestPayload_some {requestId : UInt32} {type : RequestType}
    {key value payload : List UInt8}
    (built : kRequestPayload requestId type key value = some payload) :
    ∃ body, requestBody type key value = some body ∧
      payload = leBytes 4 requestId.toNat ++ body ∧ payload.length ≤ frameMax := by
  unfold kRequestPayload at built
  split at built
  · cases built
  · simp only [Option.bind_eq_bind, Option.bind_eq_some_iff] at built
    obtain ⟨body, parts, checked⟩ := built
    split at checked
    · cases checked
    · rename_i short
      cases checked
      exact ⟨body, parts, rfl, by omega⟩

theorem readItem_itemBytes {valued : Bool} {item : List UInt8 × List UInt8}
    (legal : LegalItem valued item) (rest : List UInt8) :
    readItem valued (itemBytes valued item ++ rest) = some (item, rest) := by
  obtain ⟨named, short, carried⟩ := legal
  cases valued with
  | true =>
    have small : item.2.length ≤ valueMax := carried
    simp [readItem, itemBytes, List.append_assoc,
      readSized_sized 1 keyMax _ (by decide) named short,
      readSized_sized 0 valueMax _ (by decide) (Nat.zero_le _) small]
  | false =>
    have none_carried : item.2 = [] := carried
    simp [readItem, itemBytes, readSized_sized 1 keyMax _ (by decide) named short, ← none_carried]

theorem walkItems_batch {valued : Bool} {items : List (List UInt8 × List UInt8)}
    (legal : ∀ item ∈ items, LegalItem valued item) :
    walkItems valued items.length (items.flatMap (itemBytes valued)) = some [] := by
  induction items with
  | nil => rfl
  | cons item items ih =>
    have first := readItem_itemBytes (legal item List.mem_cons_self)
      (items.flatMap (itemBytes valued))
    have later := ih fun other member => legal other (List.mem_cons_of_mem _ member)
    simp [walkItems, List.flatMap_cons, first, later]

theorem batch_length (valued : Bool) (items : List (List UInt8 × List UInt8)) :
    items.length ≤ (items.flatMap (itemBytes valued)).length := by
  induction items with
  | nil => exact Nat.le_refl _
  | cons item items ih =>
    have one : 1 ≤ (itemBytes valued item).length := by
      unfold itemBytes
      split <;> simp [sized] <;> omega
    rw [List.flatMap_cons, List.length_append, List.length_cons]
    omega

theorem admitBatch_legal {type : RequestType} {list : List UInt8}
    (legal : LegalBatch (type = .mset) list) (short : list.length ≤ frameMax) :
    admitBatch type list = some { type, key := list, value := [] } := by
  obtain ⟨items, nonempty, each, rfl⟩ := legal
  have counted := batch_length (decide (type = .mset)) items
  have size : (batchBytes (type = .mset) items).length =
      4 + (items.flatMap (itemBytes (type = .mset))).length := by
    simp [batchBytes]
  have wide : items.length < 256 ^ 4 := by
    have bound : frameMax < 256 ^ 4 := by decide
    omega
  have positive : 0 < items.length := List.length_pos_iff.mpr nonempty
  have read : kReaderU32 (batchBytes (type = .mset) items) =
      some (items.length, items.flatMap (itemBytes (type = .mset))) :=
    (unsigned_codec 4).reads wide _
  have legalCount : ¬ (items.length < 1 ∨
      (batchBytes (type = .mset) items).length < items.length) := by
    omega
  simp only [admitBatch, read, Option.bind_eq_bind, Option.bind_some, if_neg legalCount,
    walkItems_batch each, atEnd_nil]

/-- The dispatcher on a payload whose rest is admitted as a write or point
read. -/
theorem kServerClientFrame_body {type : RequestType} {requestId : UInt32} {body : List UInt8}
    {request : Request}
    (admitted : (match type with
      | .set | .get | .del | .cas => admitPoint type body
      | .rset => admitRangeSet body
      | .rdel => admitRangeDelete body
      | .mset | .mdel | .mget => admitBatch type body
      | .fcall => admitFunctionCall body
      | _ => none) = some request) :
    kServerClientFrame true type (leBytes 4 requestId.toNat ++ body) = some request := by
  simp only [kServerClientFrame, kReaderU32_append, Option.bind_eq_bind, Option.bind_some,
    Bool.not_true, Bool.false_and, Bool.false_eq_true, if_false]
  exact admitted

theorem admitPoint_valued {type : RequestType} {key value : List UInt8}
    (kind : type = .set ∨ type = .cas) (named : 1 ≤ key.length) (short : key.length ≤ keyMax)
    (small : value.length ≤ if type = .cas then casPackedMax else valueMax) :
    admitPoint type (sized key ++ sized value) = some { type, key, value } := by
  have narrow : (if type = .cas then casPackedMax else valueMax) < 256 ^ 4 := by
    split <;> decide
  have last := readSized_last 0 _ narrow (Nat.zero_le _) small
  simp only [admitPoint, readSized_sized 1 keyMax _ (by decide) named short, Option.bind_eq_bind,
    Option.bind_some, if_pos kind, last, atEnd_nil]

theorem admitPoint_bare {type : RequestType} {key : List UInt8}
    (kind : ¬ (type = .set ∨ type = .cas)) (named : 1 ≤ key.length)
    (short : key.length ≤ keyMax) :
    admitPoint type (sized key) = some { type, key, value := [] } := by
  simp only [admitPoint, readSized_last 1 keyMax (by decide) named short, Option.bind_eq_bind,
    Option.bind_some, if_neg kind, atEnd_nil]

theorem parseBounds_sized (type : RequestType) {key value : List UInt8}
    (first : key.length ≤ keyMax) (last : value.length ≤ keyMax) :
    parseBounds type (sized key ++ sized value) = some (.submit { type, key, value }) := by
  simp only [parseBounds, readSized_sized 0 keyMax _ (by decide) (Nat.zero_le _) first,
    readSized_last 0 keyMax (by decide) (Nat.zero_le _) last, Option.bind_eq_bind, Option.bind_some,
    atEnd_nil]

/-- What is admitted for submission is what the dispatcher submits. -/
theorem clientFrame_submit {type : RequestType} {requestId : UInt32} {body : List UInt8}
    {request : Request} (cluster : Cluster)
    (frame : kServerClientFrame true type (leBytes 4 requestId.toNat ++ body) = some request) :
    clientFrame true cluster type (leBytes 4 requestId.toNat ++ body) =
      some (requestId.toNat, .submit request, cluster) := by
  cases type with
  | set | get | del | cas | rset | rdel | mset | mdel | mget | fcall =>
    simp only [clientFrame, kReaderU32_append, Option.bind_eq_bind, Option.bind_some, Bool.not_true,
      Bool.false_and, Bool.false_eq_true, if_false, frame, Option.map_some]
  | rget | member | count | min | max | members | help | info | stats | topology | shutdown =>
    simp [kServerClientFrame, kReaderU32_append] at frame

/-- A request that the client builds is dispatched as what was asked. -/
theorem clientFrame_request {type : RequestType} {key value payload : List UInt8}
    {requestId : UInt32} (legal : Legal type key value)
    (built : kRequestPayload requestId type key value = some payload) (cluster : Cluster) :
    clientFrame true cluster type payload =
      some (requestId.toNat, parsedOf type key value, cluster) := by
  obtain ⟨body, parts, rfl, short⟩ := kRequestPayload_some built
  have bodyShort : body.length ≤ frameMax := by
    rw [List.length_append] at short
    omega
  have named {key : List UInt8} (length : 1 ≤ key.length) : key ≠ [] :=
    List.ne_nil_of_length_pos length
  cases type with
  | get | del =>
    obtain ⟨one, shortKey, rfl⟩ := legal
    rw [requestBody, if_neg (named one)] at parts
    cases parts
    exact clientFrame_submit cluster (kServerClientFrame_body
      (admitPoint_bare (by decide) one shortKey))
  | set | cas =>
    obtain ⟨one, shortKey, small⟩ := legal
    rw [requestBody, if_neg (named one)] at parts
    cases parts
    exact clientFrame_submit cluster (kServerClientFrame_body
      (admitPoint_valued (by decide) one shortKey small))
  | rset =>
    obtain ⟨one, shortKey, small⟩ := legal
    rw [requestBody, if_neg (named one)] at parts
    cases parts
    apply clientFrame_submit cluster (kServerClientFrame_body _)
    simp only [admitRangeSet, readSized_sized 1 (2 * keyMax + 8) _ (by decide) one shortKey,
      readSized_last 0 valueMax (by decide) (Nat.zero_le _) small, Option.bind_eq_bind,
      Option.bind_some, atEnd_nil]
  | fcall =>
    obtain ⟨one, shortKey, small⟩ := legal
    rw [requestBody, if_neg (named one)] at parts
    cases parts
    apply clientFrame_submit cluster (kServerClientFrame_body _)
    simp only [admitFunctionCall, readSized_sized 1 64 _ (by decide) one shortKey,
      readSized_last 0 frameMax (by decide) (Nat.zero_le _) small, Option.bind_eq_bind,
      Option.bind_some, atEnd_nil]
  | rdel =>
    obtain ⟨first, last⟩ := legal
    cases parts
    apply clientFrame_submit cluster (kServerClientFrame_body _)
    simp only [admitRangeDelete, readSized_sized 0 keyMax _ (by decide) (Nat.zero_le _) first,
      readSized_last 0 keyMax (by decide) (Nat.zero_le _) last, Option.bind_eq_bind,
      Option.bind_some, atEnd_nil]
  | count | min | max =>
    obtain ⟨first, last⟩ := legal
    cases parts
    simp only [clientFrame, kReaderU32_append, Option.bind_eq_bind, Option.bind_some, Bool.not_true,
      Bool.false_and, Bool.false_eq_true, if_false, parseBounds_sized _ first last, Option.map_some,
      parsedOf]
  | mset | mdel | mget =>
    obtain ⟨batch, rfl⟩ := legal
    have filled : key ≠ [] := by
      rintro rfl
      simp [requestBody] at parts
    rw [requestBody, if_neg filled] at parts
    cases parts
    exact clientFrame_submit cluster (kServerClientFrame_body (admitBatch_legal batch bodyShort))
  | members | info | stats | help | topology | shutdown =>
    obtain ⟨rfl, rfl⟩ := legal
    cases parts
    simp only [clientFrame, kReaderU32_append, Option.bind_eq_bind, Option.bind_some, Bool.not_true,
      Bool.false_and, Bool.false_eq_true, if_false, atEnd_nil, parsedOf]
  | rget | member => exact legal.elim

theorem clientFrame_rangeRead {first last payload : List UInt8} {direction : Nat}
    {requestId limit : UInt32}
    (built : kRgetRequestPayload requestId first last direction limit = some payload)
    (cluster : Cluster) :
    clientFrame true cluster .rget payload =
      some (requestId.toNat, .rangeRead first last direction limit.toNat, cluster) := by
  unfold kRgetRequestPayload at built
  split at built
  · cases built
  · rename_i limits
    simp only [not_or, not_and, not_lt, not_not] at limits
    obtain ⟨shortFirst, shortLast, way⟩ := limits
    simp only at built
    split at built
    · cases built
    · cases built
      have small : direction < 256 ^ 1 := by omega
      have wide : limit.toNat < 256 ^ 4 := limit.toNat_lt
      have byte := (unsigned_codec 1).reads small (leBytes 4 limit.toNat)
      have count := (unsigned_codec 4).reads wide []
      rw [List.append_nil] at count
      have more : leBytes 4 limit.toNat ≠ [] := by
        apply List.ne_nil_of_length_pos
        simp
      have legal : ¬ (([] : List UInt8) ≠ [] ∨ (direction ≠ 0 ∧ direction ≠ 1)) := by
        simp only [ne_eq, not_true_eq_false, false_or]
        omega
      have parsed : parseRangeRead (sized first ++ (sized last ++
          (leBytes 1 direction ++ leBytes 4 limit.toNat))) =
          some (.rangeRead first last direction limit.toNat) := by
        simp only [parseRangeRead, readSized_sized 0 keyMax _ (by decide) (Nat.zero_le _) shortFirst,
          readSized_sized 0 keyMax _ (by decide) (Nat.zero_le _) shortLast, Option.bind_eq_bind,
          Option.bind_some, kReaderU8, byte, if_neg more, kReaderU32, count, if_neg legal]
        rfl
      simp only [clientFrame, kReaderU32_append, Option.bind_eq_bind, Option.bind_some,
        Bool.not_true, Bool.false_and, Bool.false_eq_true, if_false, parsed, Option.map_some]

theorem kReaderU16_append (value : UInt16) (rest : List UInt8) :
    kReaderU16 (leBytes 2 value.toNat ++ rest) = some (value.toNat, rest) := by
  have wide : value.toNat < 256 ^ 2 := value.toNat_lt
  exact (unsigned_codec 2).reads wide rest

/-- The addresses of an ADD are read one by one and entered into the book. -/
theorem readAdded_addresses {addresses : List Address} {cluster entered : Cluster}
    (ids : ∀ address ∈ addresses, FitsInt 4 address.id)
    (hosts : ∀ address ∈ addresses, 1 ≤ address.host.length ∧ address.host.length < hostMax)
    (enter : enterAll cluster addresses = some entered) :
    readAdded addresses.length cluster (addresses.flatMap addressBytes) =
      some (addresses.map Address.id, entered, []) := by
  induction addresses generalizing cluster with
  | nil =>
    cases enter
    rfl
  | cons address addresses ih =>
    simp only [enterAll, Option.bind_eq_bind, Option.bind_eq_some_iff] at enter
    obtain ⟨next, added, later⟩ := enter
    have rest := ih (fun other member => ids other (List.mem_cons_of_mem _ member))
      (fun other member => hosts other (List.mem_cons_of_mem _ member)) later
    obtain ⟨low, high⟩ := hosts address List.mem_cons_self
    have id := (signed_codec 4).reads (ids address List.mem_cons_self)
    have host := fun tail => readSized_sized 1 (hostMax - 1) tail (by decide) low
      (show address.host.length ≤ hostMax - 1 by omega)
    simp only [readAdded, List.length_cons, List.flatMap_cons, addressBytes, List.append_assoc,
      kReaderI32, id, host, kReaderU16_append, UInt16.ofNat_toNat, added, rest, Option.bind_eq_bind,
      Option.bind_some, List.map_cons]
    rfl

theorem parseMember_change {change : Change} (legal : change.Legal) {cluster entered : Cluster}
    (enter : enterAll cluster change.addresses = some entered) :
    parseMember cluster change.bytes = some (.member change.subcmd change.ids, entered) := by
  have wide : change.ids.length < 256 ^ 4 := by
    have few := legal.few
    have bound : maxNodes < 256 ^ 4 := by decide
    omega
  have counted : ¬ (change.ids.length < 1 ∨ maxNodes < change.ids.length) := by
    have some_ids := legal.some
    have few := legal.few
    omega
  have subcmd {code : Nat} (small : code < 256 ^ 1) (rest : List UInt8) :
      kReaderU8 (leBytes 1 code ++ rest) = some (code, rest) :=
    (unsigned_codec 1).reads small rest
  have count (rest : List UInt8) : kReaderU32 (leBytes 4 change.ids.length ++ rest) =
      some (change.ids.length, rest) :=
    (unsigned_codec 4).reads wide rest
  have listed := (readIds_codec change.ids.length).reads ⟨rfl, legal.ids⟩ []
  rw [List.append_nil] at listed
  cases change with
  | add addresses =>
    have ids : ∀ address ∈ addresses, FitsInt 4 address.id := by
      intro address member
      exact legal.ids _ (List.mem_map_of_mem member)
    have added := readAdded_addresses ids legal.hosts enter
    simp only [Change.ids, List.length_map] at counted count
    simp only [parseMember, Change.bytes, subcmd (show memberAdd < 256 ^ 1 by decide), count,
      Option.bind_eq_bind, Option.bind_some, if_neg counted, if_true, added]
    rfl
  | remove ids =>
    cases enter
    simp only [Change.ids] at counted count listed
    simp only [parseMember, Change.bytes, subcmd (show memberRemove < 256 ^ 1 by decide), count,
      Option.bind_eq_bind, Option.bind_some, if_neg counted,
      if_neg (show ¬ memberRemove = memberAdd by decide), listed, Option.map_some]
    rfl
  | reconfig ids =>
    cases enter
    simp only [Change.ids] at counted count listed
    simp only [parseMember, Change.bytes, subcmd (show memberReconfig < 256 ^ 1 by decide), count,
      Option.bind_eq_bind, Option.bind_some, if_neg counted,
      if_neg (show ¬ memberReconfig = memberAdd by decide), listed, Option.map_some]
    rfl

theorem clientFrame_member {change : Change} (legal : change.Legal) {requestId : UInt32}
    {payload : List UInt8} (built : kRequestPayload requestId .member change.bytes [] = some payload)
    {cluster entered : Cluster} (enter : enterAll cluster change.addresses = some entered) :
    clientFrame true cluster .member payload =
      some (requestId.toNat, .member change.subcmd change.ids, entered) := by
  obtain ⟨body, parts, rfl, -⟩ := kRequestPayload_some built
  rw [requestBody] at parts
  split at parts
  · cases parts
  · cases parts
    simp only [clientFrame, kReaderU32_append, Option.bind_eq_bind, Option.bind_some, Bool.not_true,
      Bool.false_and, Bool.false_eq_true, if_false, parseMember_change legal enter, Option.map_some]

/-! ## Responses -/

@[mk_iff]
structure Response.Fits (response : Response) : Prop where
  requestId : response.requestId < 256 ^ 4
  status : response.status < 256 ^ 1
  leaderId : FitsInt 4 response.leaderId
  hostLen : response.host.length < 256 ^ 2
  port : response.port < 256 ^ 2
  bodySize : response.body.length < 256 ^ 4

theorem response_codec : Codec.Whole readResponse responseBytes Response.Fits := by
  have same : ∀ response : Response, (response.requestId < 256 ^ 4 ∧ response.status < 256 ^ 1 ∧
      FitsInt 4 response.leaderId ∧ response.host.length < 256 ^ 2 ∧ True ∧
      response.port < 256 ^ 2 ∧ response.body.length < 256 ^ 4 ∧ True) ↔ response.Fits := by
    intro response
    rw [response.fits_iff, true_and, and_true]
  refine Codec.restate ?_ same
  refine Codec.field Response.requestId (unsigned_codec 4) fun requestId => ?_
  refine Codec.field Response.status (unsigned_codec 1) fun status => ?_
  refine Codec.field Response.leaderId (signed_codec 4) fun leaderId => ?_
  refine Codec.field (fun response : Response => response.host.length) (unsigned_codec 2)
    fun hostLen => ?_
  refine Codec.fieldSized Response.host (fun _ holds => holds.2) (bytes_codec hostLen)
    fun host hostSize => ?_
  refine Codec.field Response.port (unsigned_codec 2) fun port => ?_
  refine Codec.field (fun response : Response => response.body.length) (unsigned_codec 4)
    fun bodySize => ?_
  refine Codec.lastSized Response.body (fun _ holds => holds.2) (bytes_codec bodySize)
    (fun _ _ => rfl) fun body response length => ?_
  cases response
  simp only [Response.mk.injEq, true_and]
  constructor
  · rintro ⟨⟨⟨⟨⟨⟨⟨rfl, rfl⟩, rfl⟩, -⟩, rfl⟩, rfl⟩, -⟩, rfl⟩
    simp
  · rintro ⟨rfl, rfl, rfl, rfl, rfl, rfl⟩
    simp [hostSize, length]

theorem kResponseDecode_iff {bytes : List UInt8} {response : Response} :
    kResponseDecode bytes = some response ↔
      ∃ raw, readResponse bytes = some (raw, []) ∧ raw.host.length < hostMax ∧
        response = { raw with host := cString raw.host } := by
  simp only [kResponseDecode, Option.bind_eq_bind, Option.bind_eq_some_iff, Prod.exists]
  constructor
  · rintro ⟨raw, rest, read, checked⟩
    split at checked
    · cases checked
    · rename_i passes
      cases checked
      simp only [ne_eq, not_or, not_not, ge_iff_le, not_le] at passes
      obtain ⟨rfl, short⟩ := passes
      exact ⟨raw, read, short, rfl⟩
  · rintro ⟨raw, read, short, rfl⟩
    refine ⟨raw, [], read, ?_⟩
    rw [if_neg]
    · rfl
    · simpa using short

/-- A response whose host fits a node's address is decoded as it was built. -/
theorem kResponseDecode_payload {response : Response} {payload : List UInt8}
    (fits : response.Fits) (host : response.host.length < hostMax)
    (text : (0 : UInt8) ∉ response.host) (built : kResponsePayload response = some payload) :
    kResponseDecode payload = some response := by
  unfold kResponsePayload at built
  split at built
  · cases built
  · split at built
    · cases built
    · cases built
      have read := response_codec.reads fits []
      rw [List.append_nil] at read
      apply kResponseDecode_iff.mpr
      refine ⟨response, read, host, ?_⟩
      rw [cString_eq_self text]

/-- Neither a part of an accepted payload nor one with bytes behind it is
accepted. -/
theorem kResponseDecode_exact {bytes : List UInt8} {response : Response}
    (accepted : kResponseDecode bytes = some response) :
    (∀ extra, extra ≠ [] → kResponseDecode (bytes ++ extra) = none) ∧
      ∀ length, length < bytes.length → kResponseDecode (bytes.take length) = none := by
  obtain ⟨raw, read, -, -⟩ := kResponseDecode_iff.mp accepted
  constructor
  · intro extra some_extra
    by_contra taken
    obtain ⟨other, decoded⟩ := Option.ne_none_iff_exists'.mp taken
    obtain ⟨longer, readLonger, -, -⟩ := kResponseDecode_iff.mp decoded
    exact some_extra (response_codec.rest_unique read readLonger)
  · intro length short
    by_contra taken
    obtain ⟨other, decoded⟩ := Option.ne_none_iff_exists'.mp taken
    obtain ⟨shorter, readShorter, -, -⟩ := kResponseDecode_iff.mp decoded
    exact response_codec.part_unread read short readShorter

/-- A legal request whose payload fits a frame is built. -/
theorem kRequestPayload_of_legal {type : RequestType} {key value body : List UInt8}
    (legal : Legal type key value) (parts : requestBody type key value = some body)
    (short : 4 + body.length ≤ frameMax) (requestId : UInt32) :
    kRequestPayload requestId type key value = some (leBytes 4 requestId.toNat ++ body) := by
  have limits : key.length ≤ frameMax ∧ value.length ≤ casPackedMax := by
    simp only [frameMax, casPackedMax, valueMax] at short ⊢
    cases type with
    | get | del | set | cas | rset | fcall =>
      simp only [Legal, keyMax, valueMax, casPackedMax, frameMax] at legal
      obtain ⟨-, low, high⟩ := legal
      first
        | (subst high; simp only [List.length_nil]; omega)
        | omega
    | rdel | count | min | max =>
      simp only [Legal, keyMax] at legal
      omega
    | mset | mdel | mget =>
      obtain ⟨-, rfl⟩ := legal
      rw [requestBody] at parts
      split at parts
      · cases parts
      · cases parts
        simp only [List.length_nil]
        omega
    | members | info | stats | help | topology | shutdown =>
      obtain ⟨rfl, rfl⟩ := legal
      simp
    | rget | member => exact legal.elim
  have within : ¬ (key.length > frameMax ∨ value.length > casPackedMax) := by omega
  have length : ¬ (leBytes 4 requestId.toNat ++ body).length > frameMax := by
    rw [List.length_append, leBytes_length]
    omega
  simp only [kRequestPayload, if_neg within, parts, Option.bind_eq_bind, Option.bind_some,
    if_neg length]
  rfl

theorem flatMap_length_le {α : Type} {bytes : α → List UInt8} {most : Nat} {items : List α}
    (each : ∀ item ∈ items, (bytes item).length ≤ most) :
    (items.flatMap bytes).length ≤ items.length * most := by
  induction items with
  | nil => simp
  | cons item items ih =>
    have first := each item List.mem_cons_self
    have later := ih fun other member => each other (List.mem_cons_of_mem _ member)
    rw [List.flatMap_cons, List.length_append, List.length_cons, Nat.succ_mul]
    omega

/-- A membership change is short. -/
theorem change_bytes_length {change : Change} (legal : change.Legal) :
    change.bytes ≠ [] ∧ change.bytes.length ≤ 2000 := by
  have few := legal.few
  simp only [maxNodes] at few
  cases change with
  | add addresses =>
    have each : ∀ address ∈ addresses, (addressBytes address).length ≤ 76 := by
      intro address member
      have short := (legal.hosts address member).2
      simp only [hostMax] at short
      simp only [addressBytes, sized, List.length_append, leBytesInt_length, leBytes_length]
      omega
    have total := flatMap_length_le each
    simp only [Change.ids, List.length_map] at few
    constructor
    · simp [Change.bytes, leBytes]
    · simp only [Change.bytes, List.length_append, leBytes_length]
      omega
  | remove ids | reconfig ids =>
    have each : ∀ id ∈ ids, (leBytesInt 4 id).length ≤ 4 := by simp
    have total := flatMap_length_le each
    simp only [Change.ids] at few
    constructor
    · simp [Change.bytes, leBytes]
    · simp only [Change.bytes, List.length_append, leBytes_length]
      omega

theorem kRequestPayload_of_change {change : Change} (legal : change.Legal) (requestId : UInt32) :
    ∃ payload, kRequestPayload requestId .member change.bytes [] = some payload := by
  obtain ⟨filled, length⟩ := change_bytes_length legal
  have within : ¬ (change.bytes.length > frameMax ∨ ([] : List UInt8).length > casPackedMax) := by
    simp only [frameMax, List.length_nil]
    omega
  have short : ¬ (leBytes 4 requestId.toNat ++ change.bytes).length > frameMax := by
    simp only [List.length_append, leBytes_length, frameMax]
    omega
  refine ⟨leBytes 4 requestId.toNat ++ change.bytes, ?_⟩
  simp only [kRequestPayload, if_neg within, requestBody, if_neg filled, Option.bind_eq_bind,
    Option.bind_some, if_neg short]
  rfl

theorem kRgetRequestPayload_of_limits {first last : List UInt8} {direction : Nat}
    (shortFirst : first.length ≤ keyMax) (shortLast : last.length ≤ keyMax)
    (way : direction = 0 ∨ direction = 1) (requestId limit : UInt32) :
    ∃ payload, kRgetRequestPayload requestId first last direction limit = some payload := by
  have limits : ¬ (first.length > keyMax ∨ last.length > keyMax ∨
      (direction ≠ 0 ∧ direction ≠ 1)) := by
    omega
  unfold kRgetRequestPayload
  rw [if_neg limits]
  refine ⟨_, if_neg ?_⟩
  simp only [keyMax] at shortFirst shortLast
  simp only [sized, List.length_append, leBytes_length, frameMax]
  omega

/-- Client and server agree: every request and every range read within the
limits is built (a request if it fits a frame) and dispatched as exactly what was
asked, every membership change too once its addresses are entered, and every
response that fits a frame is decoded as it was built; a response cut short or
with bytes behind it is refused. -/
theorem client_wire_agrees :
    (∀ requestId type key value, Legal type key value →
      (∃ body, requestBody type key value = some body ∧ (4 + body.length ≤ frameMax →
        kRequestPayload requestId type key value = some (leBytes 4 requestId.toNat ++ body))) ∧
      ∀ payload cluster, kRequestPayload requestId type key value = some payload →
        clientFrame true cluster type payload =
          some (requestId.toNat, parsedOf type key value, cluster)) ∧
    (∀ requestId (change : Change), change.Legal →
      ∃ payload, kRequestPayload requestId .member change.bytes [] = some payload ∧
        ∀ cluster entered, enterAll cluster change.addresses = some entered →
          clientFrame true cluster .member payload =
            some (requestId.toNat, .member change.subcmd change.ids, entered)) ∧
    (∀ requestId first last direction limit, first.length ≤ keyMax → last.length ≤ keyMax →
      direction = 0 ∨ direction = 1 →
      ∃ payload, kRgetRequestPayload requestId first last direction limit = some payload ∧
        ∀ cluster, clientFrame true cluster .rget payload =
          some (requestId.toNat, .rangeRead first last direction limit.toNat, cluster)) ∧
    (∀ response : Response, response.Fits → response.host.length < hostMax →
      (0 : UInt8) ∉ response.host → (responseBytes response).length ≤ frameMax →
      ∃ payload, kResponsePayload response = some payload ∧
        kResponseDecode payload = some response) ∧
    ∀ bytes response, kResponseDecode bytes = some response →
      (∀ extra, extra ≠ [] → kResponseDecode (bytes ++ extra) = none) ∧
      ∀ length, length < bytes.length → kResponseDecode (bytes.take length) = none := by
  refine ⟨?_, ?_, ?_, ?_, ?_⟩
  · intro requestId type key value legal
    obtain ⟨body, parts⟩ := requestBody_of_legal legal
    refine ⟨⟨body, parts, fun short => kRequestPayload_of_legal legal parts short requestId⟩, ?_⟩
    intro payload cluster built
    exact clientFrame_request legal built cluster
  · intro requestId change legal
    obtain ⟨payload, built⟩ := kRequestPayload_of_change legal requestId
    exact ⟨payload, built, fun cluster entered enter => clientFrame_member legal built enter⟩
  · intro requestId first last direction limit shortFirst shortLast way
    obtain ⟨payload, built⟩ := kRgetRequestPayload_of_limits shortFirst shortLast way requestId limit
    exact ⟨payload, built, fun cluster => clientFrame_rangeRead built cluster⟩
  · intro response fits host text short
    have built : kResponsePayload response = some (responseBytes response) := by
      simp only [hostMax] at host
      rw [kResponsePayload, if_neg (by omega), if_neg (by omega)]
    exact ⟨_, built, kResponseDecode_payload fits host text built⟩
  · intro bytes response accepted
    exact kResponseDecode_exact accepted

/-- A SET, a range read and a redirect. -/
theorem small_messages_agree :
    (∃ payload, kRequestPayload 7 .set [107] [118] = some payload ∧
      clientFrame true Cluster.empty .set payload = some (7, .submit ⟨.set, [107], [118]⟩,
        Cluster.empty)) ∧
    (∃ payload, kRgetRequestPayload 8 [97] [] 1 10 = some payload ∧
      clientFrame true Cluster.empty .rget payload = some (8, .rangeRead [97] [] 1 10,
        Cluster.empty)) ∧
    ∃ payload, kResponsePayload ⟨7, 3, 2, [49, 48], 9100, []⟩ = some payload ∧
      kResponseDecode payload = some ⟨7, 3, 2, [49, 48], 9100, []⟩ := by
  obtain ⟨requests, -, ranges, responses, -⟩ := client_wire_agrees
  refine ⟨?_, ?_, ?_⟩
  · obtain ⟨⟨body, parts, built⟩, parsed⟩ := requests 7 .set [107] [118]
      ⟨by decide, by decide, by decide⟩
    cases parts
    exact ⟨_, built (by decide), parsed _ _ (built (by decide))⟩
  · obtain ⟨payload, built, parsed⟩ := ranges 8 [97] [] 1 10 (by decide) (by decide) (.inr rfl)
    exact ⟨payload, built, parsed _⟩
  · exact responses ⟨7, 3, 2, [49, 48], 9100, []⟩
      ⟨by decide, by decide, by decide, by decide, by decide, by decide⟩ (by decide) (by decide)
      (by decide)

end Kynovo.Proto.ClientCodec
