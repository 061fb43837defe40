import Mathlib.Data.List.Basic
import Kynovo.Store.Treap
import Kynovo.Server.AddressBook

/-! Write commands: how a client frame is admitted, how an admitted write is
encoded into a log command, and how a replica applies a log command. The three
parsers are separate in the source and stay separate here; they share only the
byte reader. -/
namespace Kynovo.Server.Command
open Kynovo.Lib.LittleEndian
open Kynovo.Wal.Record
open Kynovo.Store.Treap
open Kynovo.Server.AddressBook

def frameMax : Nat := 1048576
def keyMax : Nat := 65536
def valueMax : Nat := 524288
def casPackedMax : Nat := 2 * valueMax + 9
def raftCommandMax : Nat := frameMax - 256
/-- The longest buffer whose length fits its 32-bit counter. -/
def bufMax : Nat := 0xffffffff

/-- The request types, in the order of their wire values from 1 on. -/
inductive RequestType where
  | get
  | mget
  | rget
  | set
  | mset
  | rset
  | del
  | mdel
  | rdel
  | count
  | min
  | max
  | cas
  | fcall
  | info
  | stats
  | member
  | members
  | help
  | shutdown
  | topology
deriving DecidableEq, Repr

def kRequestIsRead : RequestType → Bool
  | .get | .count | .min | .max | .rget | .members | .mget => true
  | _ => false

/-- Requests a stopping server still answers. -/
def servedWhileStopping : RequestType → Bool
  | .info | .stats | .help | .topology => true
  | _ => false

/-- A request as it is handed to `k_server_submit`. -/
structure Request where
  type : RequestType
  key : List UInt8
  value : List UInt8
deriving DecidableEq, Repr

/-- A length field with its bounds, then that many bytes. -/
def readSized (least most : Nat) (bytes : List UInt8) : Option (List UInt8 × List UInt8) := do
  let (len, rest) ← kReaderU32 bytes
  if len < least ∨ most < len then none else kReaderBytes len rest

/-- A value that must end where the reader ends. -/
def atEnd {α : Type} (value : α) (rest : List UInt8) : Option α :=
  if rest = [] then some value else none

/-! ## Admission -/

/-- SET, GET, DEL and CAS: a key, and for SET and CAS a value. -/
def admitPoint (type : RequestType) (bytes : List UInt8) : Option Request := do
  let (key, rest) ← readSized 1 keyMax bytes
  if type = .set ∨ type = .cas then
    let (value, rest) ← readSized 0 (if type = .cas then casPackedMax else valueMax) rest
    atEnd { type, key, value } rest
  else atEnd { type, key, value := [] } rest

/-- RSET: the packed bounds travel in the key field. -/
def admitRangeSet (bytes : List UInt8) : Option Request := do
  let (key, rest) ← readSized 1 (2 * keyMax + 8) bytes
  let (value, rest) ← readSized 0 valueMax rest
  atEnd { type := .rset, key, value } rest

def admitRangeDelete (bytes : List UInt8) : Option Request := do
  let (key, rest) ← readSized 0 keyMax bytes
  let (value, rest) ← readSized 0 keyMax rest
  atEnd { type := .rdel, key, value } rest

/-- One item of a batch: a key, and for MSET a value. -/
def readItem (valued : Bool) (bytes : List UInt8) :
    Option ((List UInt8 × List UInt8) × List UInt8) := do
  let (key, rest) ← readSized 1 keyMax bytes
  if valued then
    let (value, rest) ← readSized 0 valueMax rest
    return ((key, value), rest)
  else return ((key, []), rest)

def walkItems (valued : Bool) : Nat → List UInt8 → Option (List UInt8)
  | 0, bytes => some bytes
  | count + 1, bytes => do
    let (_, rest) ← readItem valued bytes
    walkItems valued count rest

/-- MSET, MDEL and MGET: the whole list is walked before it is accepted. -/
def admitBatch (type : RequestType) (list : List UInt8) : Option Request := do
  let (count, rest) ← kReaderU32 list
  if count < 1 ∨ list.length < count then none
  else
    let rest ← walkItems (type = .mset) count rest
    atEnd { type, key := list, value := [] } rest

def admitFunctionCall (bytes : List UInt8) : Option Request := do
  let (key, rest) ← readSized 1 64 bytes
  let (value, rest) ← readSized 0 frameMax rest
  atEnd { type := .fcall, key, value } rest

/-- What a client frame submits; `none` when the frame is refused or its type
goes elsewhere than to `k_server_submit`. A frame starts with the request id. -/
def kServerClientFrame (admission : Bool) (type : RequestType) (payload : List UInt8) :
    Option Request := do
  let (_, rest) ← kReaderU32 payload
  if !admission && !servedWhileStopping type then none
  else
    match type with
    | .set | .get | .del | .cas => admitPoint type rest
    | .rset => admitRangeSet rest
    | .rdel => admitRangeDelete rest
    | .mset | .mdel | .mget => admitBatch type rest
    | .fcall => admitFunctionCall rest
    | _ => none

/-! ## Encoding -/

/-- A length and the bytes. -/
def sized (bytes : List UInt8) : List UInt8 := leBytes 4 bytes.length ++ bytes

def opSet : Nat := 1
def opMset : Nat := 2
def opRset : Nat := 3
def opDel : Nat := 4
def opMdel : Nat := 5
def opRdel : Nat := 6
def opCas : Nat := 7
def opFcall : Nat := 8
def opAddr : Nat := 9

/-- The bytes of the command, before its size is checked. -/
def commandBytes (type : RequestType) (key value : List UInt8) : List UInt8 :=
  match type with
  | .mset => leBytes 1 opMset ++ key
  | .mdel => leBytes 1 opMdel ++ key
  | .rset => leBytes 1 opRset ++ (key ++ sized value)
  | .rdel => leBytes 1 opRdel ++ (sized key ++ sized value)
  | .cas => leBytes 1 opCas ++ (sized key ++ sized value)
  | .set => leBytes 1 opSet ++ (sized key ++ sized value)
  | _ => leBytes 1 opDel ++ sized key

def kServerBuildWriteCommand (type : RequestType) (key value : List UInt8) :
    Option (List UInt8) :=
  if raftCommandMax < (commandBytes type key value).length then none
  else some (commandBytes type key value)

/-- The log command `k_server_submit` makes of a request. Reads and function
calls are not encoded here. -/
def submittedCommand (request : Request) : Option (List UInt8) :=
  if kRequestIsRead request.type ∨ request.type = .fcall then none
  else kServerBuildWriteCommand request.type request.key request.value

/-! ## Apply -/

/-- A node the server waits for, with where the wait comes from and since when. -/
structure Pending where
  id : Int
  source : Int
  since : Nat
deriving DecidableEq, Repr

/-- The part of the server a command reads or changes. -/
structure Replica where
  tree : Tree
  cluster : Cluster
  voters : List Int
  learners : List Int
  pending : List Pending
  refused : List Int
  elapsedTotalMs : Nat

/-- What an apply leaves in the request it answers. -/
structure Reply where
  conflict : Bool
  result : List UInt8
deriving DecidableEq, Repr

/-- A number as the client sees it. -/
def decimal (n : Nat) : List UInt8 :=
  (Nat.toDigits 10 n).map (fun digit => UInt8.ofNat digit.toNat)

def countReply (n : Nat) : Option Reply := some { conflict := false, result := decimal n }

/-- One entry of a write set on the working copy; the flag says whether a key was
affected. -/
def applyItem (valued : Bool) (fork : Tree) (key value : List UInt8) : Option (Tree × Bool) :=
  if valued then (treapSet fork key value).map (fun tree => (tree, true))
  else treapDelete fork key

def applyItems (valued : Bool) :
    Nat → Tree → Nat → List UInt8 → Option (Tree × Nat × List UInt8)
  | 0, fork, affected, bytes => some (fork, affected, bytes)
  | count + 1, fork, affected, bytes => do
    let ((key, value), rest) ← readItem valued bytes
    let (fork, hit) ← applyItem valued fork key value
    applyItems valued count fork (if hit then affected + 1 else affected) rest

/-- MSET and MDEL: all items on a working copy, then one commit. -/
def applyBatch (server : Replica) (valued : Bool) (bytes : List UInt8) :
    Option (Replica × Option Reply) := do
  let (count, rest) ← kReaderU32 bytes
  if count < 1 then none
  else
    let (fork, affected, rest) ← applyItems valued count (treapFork server.tree) 0 rest
    atEnd ({ server with tree := treapCommit fork server.tree }, countReply affected) rest

/-- The keys of a scan, packed into one buffer. -/
def packKeys (found : List Entry) : List UInt8 := found.flatMap (fun entry => sized entry.key)

/-- Sets every key of a packed list; `fuel` bounds the number of keys. -/
def setPacked (value : List UInt8) :
    Nat → Tree → Nat → List UInt8 → Option (Tree × Nat)
  | _, fork, affected, [] => some (fork, affected)
  | 0, _, _, _ :: _ => none
  | fuel + 1, fork, affected, bytes => do
    let (len, rest) ← kReaderU32 bytes
    let (key, rest) ← kReaderBytes len rest
    let fork ← treapSet fork key value
    setPacked value fuel fork (affected + 1) rest

/-- The bounds of a range, packed in front of what follows. -/
def readBounds (bytes : List UInt8) : Option ((List UInt8 × List UInt8) × List UInt8) := do
  let (first, rest) ← readSized 0 keyMax bytes
  let (last, rest) ← readSized 0 keyMax rest
  return ((first, last), rest)

/-- RSET: the keys of the range are collected first, then all set to the value on
a working copy. The collecting buffer is limited by its 32-bit length. -/
def applyRangeSet (server : Replica) (bytes : List UInt8) : Option (Replica × Option Reply) := do
  let ((first, last), rest) ← readBounds bytes
  let (value, rest) ← readSized 0 valueMax rest
  let _ ← atEnd () rest
  let list := packKeys (treapScan server.tree first last)
  if bufMax < list.length then none
  else
    let (fork, affected) ← setPacked value list.length (treapFork server.tree) 0 list
    return ({ server with tree := treapCommit fork server.tree }, countReply affected)

def applyRangeDelete (server : Replica) (bytes : List UInt8) : Option (Replica × Option Reply) := do
  let ((first, last), rest) ← readBounds bytes
  let _ ← atEnd () rest
  let (tree, removed) := treapDeleteRange server.tree first last
  return ({ server with tree }, countReply removed)

/-- A decoded CAS value: the new value and, in compare mode, the expected one. -/
structure CasValue where
  new : List UInt8
  old : Option (List UInt8)
deriving DecidableEq, Repr

/-- The packed CAS value: mode, new value and, in compare mode only, the old
value, with nothing behind it. -/
def readCasValue (bytes : List UInt8) : Option CasValue := do
  let (mode, rest) ← kReaderU8 bytes
  let (new, rest) ← readSized 0 valueMax rest
  if mode = 1 then
    let (old, rest) ← readSized 0 valueMax rest
    atEnd { new, old := some old } rest
  else if mode = 0 then atEnd { new, old := none } rest
  else none

/-- Set-if-absent conflicts with a present key, compare-and-set with anything but
the expected value. -/
def casConflict (cas : CasValue) (current : Option (List UInt8)) : Bool :=
  match cas.old with
  | none => current.isSome
  | some old => current ≠ some old

def applyCas (server : Replica) (bytes : List UInt8) : Option (Replica × Option Reply) := do
  let (key, rest) ← readSized 1 keyMax bytes
  let (value, rest) ← readSized 0 casPackedMax rest
  let _ ← atEnd () rest
  let cas ← readCasValue value
  let current ← treapGet server.tree key
  let reply := some { conflict := casConflict cas current, result := current.getD [] }
  if casConflict cas current then return (server, reply)
  else
    let tree ← treapSet server.tree key cas.new
    return ({ server with tree }, reply)

/-- The entries of a function call's write set, until the command ends. -/
def applyExecItems : Nat → Tree → List UInt8 → Option Tree
  | _, fork, [] => some fork
  | 0, _, _ :: _ => none
  | fuel + 1, fork, bytes => do
    let (op, rest) ← kReaderU8 bytes
    if op = opSet ∨ op = opDel then
      let ((key, value), rest) ← readItem (op = opSet) rest
      let (fork, _) ← applyItem (op = opSet) fork key value
      applyExecItems fuel fork rest
    else none

/-- FCALL: the logged write set is replayed on a working copy. -/
def kServerApplyExec (server : Replica) (bytes : List UInt8) : Option (Replica × Option Reply) := do
  let fork ← applyExecItems bytes.length (treapFork server.tree) bytes
  return ({ server with tree := treapCommit fork server.tree }, none)

/-- A node learned from a replicated address stays pending until a configuration
makes it a member. -/
def notePending (server : Replica) (id : Int) : Replica :=
  let members : Members :=
    { voters := server.voters, learners := server.learners,
      pending := server.pending.map Pending.id }
  if kMembershipContains members id ∨ maxNodes ≤ server.pending.length then server
  else
    { server with
      pending := server.pending ++
        [{ id, source := if server.refused.contains id then -1 else 0,
           since := server.elapsedTotalMs }] }

def applyAddresses : Nat → Replica → List UInt8 → Option (Replica × List UInt8)
  | 0, server, bytes => some (server, bytes)
  | count + 1, server, bytes => do
    let (id, rest) ← kReaderI32 bytes
    let (host, rest) ← readSized 1 (hostMax - 1) rest
    let (clientPort, rest) ← kReaderUnsigned 2 rest
    let (peerPort, rest) ← kReaderUnsigned 2 rest
    let cluster ← kServerAddAddress server.cluster id host (UInt16.ofNat clientPort)
      (UInt16.ofNat peerPort)
    applyAddresses count (notePending { server with cluster } id) rest

def applyAddr (server : Replica) (bytes : List UInt8) : Option (Replica × Option Reply) := do
  let (count, rest) ← kReaderU32 bytes
  if maxNodes < count then none
  else
    let (server, rest) ← applyAddresses count server rest
    atEnd (server, none) rest

def applySet (server : Replica) (bytes : List UInt8) : Option (Replica × Option Reply) := do
  let (key, rest) ← readSized 1 keyMax bytes
  let (value, rest) ← readSized 0 valueMax rest
  let _ ← atEnd () rest
  let tree ← treapSet server.tree key value
  return ({ server with tree }, none)

def applyDelete (server : Replica) (bytes : List UInt8) : Option (Replica × Option Reply) := do
  let (key, rest) ← readSized 1 keyMax bytes
  let _ ← atEnd () rest
  let (tree, _) ← treapDelete server.tree key
  return ({ server with tree }, none)

/-- The server after a log command, and what the request that waits for it gets.
A failure stops the node. -/
def kServerApplyCommand (server : Replica) (command : List UInt8) :
    Option (Replica × Option Reply) := do
  let (op, rest) ← kReaderU8 command
  if op = opMset ∨ op = opMdel then applyBatch server (op = opMset) rest
  else if op = opRset then applyRangeSet server rest
  else if op = opFcall then kServerApplyExec server rest
  else if op = opRdel then applyRangeDelete server rest
  else if op = opCas then applyCas server rest
  else if op = opAddr then applyAddr server rest
  else if op = opSet then applySet server rest
  else if op = opDel then applyDelete server rest
  else none

end Kynovo.Server.Command
