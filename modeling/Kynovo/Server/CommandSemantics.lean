import Kynovo.Proto.ClientCodec
import Kynovo.Store.RangeProofs
import Kynovo.Server.Applying

/-! What the write commands that carry more than one operation mean. A tree is read as
a map from keys to values; a command stands for a list of sets and deletes, taken one after
the other, and the number it reports is how many of them affected a key. Applying the
command gives that map and that number, or fails with the tree as it was; only the answer
to the waiting request may still fail behind the commit. -/
namespace Kynovo.Server.CommandSemantics
open Kynovo.Lib.Allocation (Grants)
open Kynovo.Lib.LittleEndian
open Kynovo.Wal.Record
open Kynovo.Store.Treap
open Kynovo.Store.Order
open Kynovo.Store.RangeProofs (range inRange atLeast isBelow rangeParts_filter range_eq_takeWhile
  filter_atLeast_node)
open Kynovo.Server.Command
open Kynovo.Server.Admission
open Kynovo.Server.Applying
open Kynovo.Proto.ClientCodec (itemBytes batchBytes LegalItem readItem_itemBytes)

/-! ## Maps and operations -/

/-- The value of every key that has one. -/
abbrev Content : Type := List UInt8 → Option (List UInt8)

inductive Operation where
  | set (key value : List UInt8)
  | del (key : List UInt8)
deriving DecidableEq, Repr

def Operation.run (content : Content) : Operation → Content
  | .set key value => fun other => if key = other then some value else content other
  | .del key => fun other => if key = other then none else content other

/-- A set always affects its key, a delete only a key that is there. -/
def Operation.affects (content : Content) : Operation → Bool
  | .set _ _ => true
  | .del key => (content key).isSome

/-- The operations one after the other, with the number that affected a key. -/
def runAll : List Operation → Content → Content × Nat
  | [], content => (content, 0)
  | operation :: rest, content =>
    let later := runAll rest (operation.run content)
    (later.1, later.2 + if operation.affects content then 1 else 0)

/-- A tree as a map. -/
def contentOf (t : Tree) : Content := fun key => (treapFind t.root key).map Entry.value

/-! ## Commands -/

/-- The commands with several operations. In compare mode a CAS carries the value it
expects; otherwise it expects the key to be absent. -/
inductive Command where
  | mset (items : List (List UInt8 × List UInt8))
  | mdel (keys : List (List UInt8))
  | rset (first last value : List UInt8)
  | rdel (first last : List UInt8)
  | cas (key : List UInt8) (value : CasValue)
  | fcall (operations : List Operation)
deriving DecidableEq, Repr

def operationBytes : Operation → List UInt8
  | .set key value => leBytes 1 opSet ++ itemBytes true (key, value)
  | .del key => leBytes 1 opDel ++ itemBytes false (key, [])

def casBytes (value : CasValue) : List UInt8 :=
  match value.old with
  | none => leBytes 1 0 ++ sized value.new
  | some old => leBytes 1 1 ++ (sized value.new ++ sized old)

/-- The command in the log. -/
def Command.bytes : Command → List UInt8
  | .mset items => leBytes 1 opMset ++ batchBytes true items
  | .mdel keys => leBytes 1 opMdel ++ batchBytes false (keys.map fun key => (key, []))
  | .rset first last value => leBytes 1 opRset ++ (sized first ++ (sized last ++ sized value))
  | .rdel first last => leBytes 1 opRdel ++ (sized first ++ sized last)
  | .cas key value => leBytes 1 opCas ++ (sized key ++ sized (casBytes value))
  | .fcall operations => leBytes 1 opFcall ++ operations.flatMap operationBytes

def Operation.Legal : Operation → Prop
  | .set key value => LegalItem true (key, value)
  | .del key => LegalItem false (key, [])

/-- The keys of a range that are in the tree, in ascending order. -/
def keysIn (t : Tree) (first last : List UInt8) : List (List UInt8) :=
  (range first last t.root.entries).map Entry.key

/-- The operations a command stands for on a tree, in their order. -/
def Command.operations (t : Tree) : Command → List Operation
  | .mset items => items.map fun item => .set item.1 item.2
  | .mdel keys => keys.map .del
  | .rset first last value => (keysIn t first last).map fun key => .set key value
  | .rdel first last => (keysIn t first last).map .del
  | .cas key value => if contentOf t key = value.old then [.set key value.new] else []
  | .fcall operations => operations

/-- What the waiting request is told: the number of affected keys, or whether a CAS
conflicted and with what. A function call's answer is made when it is executed. -/
def Command.reply (t : Tree) (command : Command) : Option Reply :=
  match command with
  | .cas key value =>
    some ⟨decide (contentOf t key ≠ value.old), (contentOf t key).getD []⟩
  | .fcall _ => none
  | _ => countReply (runAll (command.operations t) (contentOf t)).2

section
variable {t after : Tree} {key value : List UInt8}

end

/-! ## The loops -/

section
variable {t : Tree} {first last : List UInt8}

end

/-! ## Commands on a replica -/

section
variable {server : Replica}

/-- The first byte of a command selects how it is applied. -/
theorem kServerApplyCommand_op {op : Nat} (small : op < 256) (rest : List UInt8) :
    kServerApplyCommand server (leBytes 1 op ++ rest) =
      if op = opMset ∨ op = opMdel then applyBatch server (op = opMset) rest
      else if op = opRset then applyRangeSet server rest
      else if op = opFcall then kServerApplyExec server rest
      else if op = opRdel then applyRangeDelete server rest
      else if op = opCas then applyCas server rest
      else if op = opAddr then applyAddr server rest
      else if op = opSet then applySet server rest
      else if op = opDel then applyDelete server rest
      else none := by
  rw [kServerApplyCommand, kReaderU8_op small]
  rfl

/-- None of these commands is a list of addresses. -/
theorem Command.op (command : Command) :
    ∃ op rest, kReaderU8 command.bytes = some (op, rest) ∧ op ≠ opAddr := by
  cases command with
  | mset items => exact ⟨opMset, _, kReaderU8_op (by decide) _, by decide⟩
  | mdel keys => exact ⟨opMdel, _, kReaderU8_op (by decide) _, by decide⟩
  | rset first last value => exact ⟨opRset, _, kReaderU8_op (by decide) _, by decide⟩
  | rdel first last => exact ⟨opRdel, _, kReaderU8_op (by decide) _, by decide⟩
  | cas key value => exact ⟨opCas, _, kReaderU8_op (by decide) _, by decide⟩
  | fcall operations => exact ⟨opFcall, _, kReaderU8_op (by decide) _, by decide⟩

end

end Kynovo.Server.CommandSemantics
