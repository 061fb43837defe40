import Kynovo.Lib.Allocation
import Kynovo.Server.Command

/-! Applying a command with the memory it gets. A command works on a fork or in one
treap call, so what stops it in front of the commit leaves the tree. The answer for the
waiting request is made behind the commit, and it needs memory too. -/
namespace Kynovo.Server.Applying
open Kynovo.Lib.Allocation
open Kynovo.Wal.Record
open Kynovo.Store.Treap
open Kynovo.Server.AddressBook
open Kynovo.Server.Command

/-! ## Up to the commit -/

def applyItemsWithin (valued : Bool) :
    Nat → Tree → Nat → List UInt8 → Allocating (Tree × Nat × List UInt8)
  | 0, fork, affected, bytes => pure (fork, affected, bytes)
  | count + 1, fork, affected, bytes => do
    let ((key, value), rest) ← liftM (readItem valued bytes)
    let (fork, hit) ← allocate (applyItem valued fork key value)
    applyItemsWithin valued count fork (if hit then affected + 1 else affected) rest

def applyBatchWithin (server : Replica) (valued : Bool) (bytes : List UInt8) :
    Allocating (Replica × Option Reply) := do
  let (count, rest) ← liftM (kReaderU32 bytes)
  if count < 1 then failure
  else
    let fork ← allocate (some (treapFork server.tree))
    let (fork, affected, rest) ← applyItemsWithin valued count fork 0 rest
    liftM (atEnd ({ server with tree := treapCommit fork server.tree }, countReply affected) rest)

/-- The keys of a scan, appended to a buffer whose length is a 32-bit number. -/
def kRsetCollect : List Entry → List UInt8 → Allocating (List UInt8)
  | [], list => pure list
  | entry :: found, list => do
    let list ← allocate (if bufMax < (list ++ sized entry.key).length then none
      else some (list ++ sized entry.key))
    kRsetCollect found list

def setPackedWithin (value : List UInt8) :
    Nat → Tree → Nat → List UInt8 → Allocating (Tree × Nat)
  | _, fork, affected, [] => pure (fork, affected)
  | 0, _, _, _ :: _ => failure
  | fuel + 1, fork, affected, bytes => do
    let (len, rest) ← liftM (kReaderU32 bytes)
    let (key, rest) ← liftM (kReaderBytes len rest)
    let fork ← allocate (treapSet fork key value)
    setPackedWithin value fuel fork (affected + 1) rest

def applyRangeSetWithin (server : Replica) (bytes : List UInt8) :
    Allocating (Replica × Option Reply) := do
  let ((first, last), rest) ← liftM (readBounds bytes)
  let (value, rest) ← liftM (readSized 0 valueMax rest)
  let _ ← liftM (atEnd () rest)
  let found ← allocate (some (treapScan server.tree first last))
  let list ← kRsetCollect found []
  let fork ← allocate (some (treapFork server.tree))
  let (fork, affected) ← setPackedWithin value list.length fork 0 list
  return ({ server with tree := treapCommit fork server.tree }, countReply affected)

def applyRangeDeleteWithin (server : Replica) (bytes : List UInt8) :
    Allocating (Replica × Option Reply) := do
  let ((first, last), rest) ← liftM (readBounds bytes)
  let _ ← liftM (atEnd () rest)
  let (tree, removed) ← allocate (some (treapDeleteRange server.tree first last))
  return ({ server with tree }, countReply removed)

def applyCasWithin (server : Replica) (bytes : List UInt8) :
    Allocating (Replica × Option Reply) := do
  let (key, rest) ← liftM (readSized 1 keyMax bytes)
  let (value, rest) ← liftM (readSized 0 casPackedMax rest)
  let _ ← liftM (atEnd () rest)
  let cas ← liftM (readCasValue value)
  let current ← liftM (treapGet server.tree key)
  let reply := some { conflict := casConflict cas current, result := current.getD [] }
  if casConflict cas current then return (server, reply)
  else
    let tree ← allocate (treapSet server.tree key cas.new)
    return ({ server with tree }, reply)

def applyExecItemsWithin : Nat → Tree → List UInt8 → Allocating Tree
  | _, fork, [] => pure fork
  | 0, _, _ :: _ => failure
  | fuel + 1, fork, bytes => do
    let (op, rest) ← liftM (kReaderU8 bytes)
    if op = opSet ∨ op = opDel then
      let ((key, value), rest) ← liftM (readItem (op = opSet) rest)
      let (fork, _) ← allocate (applyItem (op = opSet) fork key value)
      applyExecItemsWithin fuel fork rest
    else failure

def kServerApplyExecWithin (server : Replica) (bytes : List UInt8) :
    Allocating (Replica × Option Reply) := do
  let fork ← allocate (some (treapFork server.tree))
  let fork ← applyExecItemsWithin bytes.length fork bytes
  return ({ server with tree := treapCommit fork server.tree }, none)

/-- A command up to its commit, with the answer the waiting request is to get. -/
def committed (server : Replica) (op : Nat) (rest : List UInt8) :
    Allocating (Replica × Option Reply) :=
  if op = opMset ∨ op = opMdel then applyBatchWithin server (op = opMset) rest
  else if op = opRset then applyRangeSetWithin server rest
  else if op = opFcall then kServerApplyExecWithin server rest
  else if op = opRdel then applyRangeDeleteWithin server rest
  else if op = opCas then applyCasWithin server rest
  else if op = opSet then allocate (applySet server rest)
  else if op = opDel then allocate (applyDelete server rest)
  else failure

/-! ## The whole command -/

/-- What a command returns and leaves: the replica, and what stands in the request that
waits for it. -/
structure Outcome where
  code : Int
  server : Replica
  reply : Option Reply

/-- The result is copied into the waiting request behind the commit. An empty result
needs no memory. -/
def answer (waiting : Bool) (grants : Grants) (after : Replica) : Option Reply → Outcome
  | none => ⟨0, after, none⟩
  | some reply =>
    if waiting = false then ⟨0, after, none⟩
    else if reply.result = [] then ⟨0, after, some reply⟩
    else
      match allocate (some reply) grants with
      | some _ => ⟨0, after, some reply⟩
      | none => ⟨-1, after, some { reply with result := [] }⟩

/-- One address of a replicated list. -/
def applyAddress (server : Replica) (bytes : List UInt8) : Option (Replica × List UInt8) := do
  let (id, rest) ← kReaderI32 bytes
  let (host, rest) ← readSized 1 (hostMax - 1) rest
  let (clientPort, rest) ← kReaderUnsigned 2 rest
  let (peerPort, rest) ← kReaderUnsigned 2 rest
  let cluster ← kServerAddAddress server.cluster id host (UInt16.ofNat clientPort)
    (UInt16.ofNat peerPort)
  return (notePending { server with cluster } id, rest)

/-- Addresses are taken up one by one; those in front of a bad one stay. -/
def takeAddresses : Nat → Replica → List UInt8 → Replica
  | 0, server, _ => server
  | count + 1, server, bytes =>
    match applyAddress server bytes with
    | none => server
    | some (server, rest) => takeAddresses count server rest

def applyAddrKept (server : Replica) (bytes : List UInt8) : Outcome :=
  match kReaderU32 bytes with
  | none => ⟨-1, server, none⟩
  | some (count, rest) =>
    if maxNodes < count then ⟨-1, server, none⟩
    else ⟨if (applyAddr server bytes).isSome then 0 else -1, takeAddresses count server rest, none⟩

/-- `k_server_apply_command` where memory may be refused. A request waits when the
command's cookie names one. -/
def kServerApplyCommandWithin (waiting : Bool) (grants : Grants) (server : Replica)
    (command : List UInt8) : Outcome :=
  match kReaderU8 command with
  | none => ⟨-1, server, none⟩
  | some (op, rest) =>
    if op = opAddr then applyAddrKept server rest
    else
      match committed server op rest grants with
      | none => ⟨-1, server, none⟩
      | some ((after, reply), left) => answer waiting left after reply

/-! ## The commands without refusals -/

theorem applyItemsWithin_follows (valued : Bool) (count : Nat) (fork : Tree) (affected : Nat)
    (bytes : List UInt8) :
    Follows (applyItemsWithin valued count fork affected bytes)
      (applyItems valued count fork affected bytes) := by
  induction count generalizing fork affected bytes with
  | zero => exact .ret _
  | succ count ih =>
    unfold applyItemsWithin applyItems
    apply Follows.bind (.lift _)
    rintro ⟨⟨key, value⟩, rest⟩ -
    apply Follows.bind (.allocate _)
    rintro ⟨fork, hit⟩ -
    exact ih fork _ rest

theorem applyBatchWithin_follows (server : Replica) (valued : Bool) (bytes : List UInt8) :
    Follows (applyBatchWithin server valued bytes) (applyBatch server valued bytes) := by
  unfold applyBatchWithin applyBatch
  apply Follows.bind (.lift _)
  rintro ⟨count, rest⟩ -
  apply Follows.ite .fail
  apply Follows.known (.allocate _)
  apply Follows.bind (applyItemsWithin_follows _ _ _ _ _)
  rintro ⟨fork, affected, rest⟩ -
  exact .lift _

/-- The buffer holds the packed keys when they fit. -/
theorem kRsetCollect_follows (found : List Entry) (list : List UInt8) (fits : list.length ≤ bufMax) :
    Follows (kRsetCollect found list)
      (if bufMax < (list ++ packKeys found).length then none else some (list ++ packKeys found)) := by
  induction found generalizing list with
  | nil =>
    rw [packKeys, List.flatMap_nil, List.append_nil, if_neg (Nat.not_lt.mpr fits)]
    exact .ret list
  | cons entry found ih =>
    have split : list ++ packKeys (entry :: found) =
        (list ++ sized entry.key) ++ packKeys found := by
      rw [packKeys, List.flatMap_cons, List.append_assoc]
      rfl
    rw [split, kRsetCollect]
    by_cases long : bufMax < (list ++ sized entry.key).length
    · have longer : bufMax < ((list ++ sized entry.key) ++ packKeys found).length := by
        rw [List.length_append]
        omega
      rw [if_pos long, if_pos longer]
      exact .stop (.allocate none)
    · rw [if_neg long]
      exact Follows.known (.allocate _) (ih _ (Nat.not_lt.mp long))

theorem setPackedWithin_follows (value : List UInt8) (fuel : Nat) (fork : Tree) (affected : Nat)
    (bytes : List UInt8) :
    Follows (setPackedWithin value fuel fork affected bytes)
      (setPacked value fuel fork affected bytes) := by
  induction fuel generalizing fork affected bytes with
  | zero =>
    cases bytes with
    | nil => exact .ret _
    | cons head tail => exact .fail
  | succ fuel ih =>
    cases bytes with
    | nil => exact .ret _
    | cons head tail =>
      unfold setPackedWithin setPacked
      apply Follows.bind (.lift _)
      rintro ⟨len, rest⟩ -
      apply Follows.bind (.lift _)
      rintro ⟨key, rest⟩ -
      exact Follows.bind (.allocate _) (fun fork _ => ih fork _ rest)

theorem applyRangeSetWithin_follows (server : Replica) (bytes : List UInt8) :
    Follows (applyRangeSetWithin server bytes) (applyRangeSet server bytes) := by
  unfold applyRangeSetWithin applyRangeSet
  apply Follows.bind (.lift _)
  rintro ⟨⟨first, last⟩, rest⟩ -
  apply Follows.bind (.lift _)
  rintro ⟨value, rest⟩ -
  apply Follows.bind (.lift _)
  rintro - -
  apply Follows.known (.allocate _)
  have collect := kRsetCollect_follows (treapScan server.tree first last) [] (Nat.zero_le _)
  rw [List.nil_append] at collect
  dsimp only
  by_cases long : bufMax < (packKeys (treapScan server.tree first last)).length
  · rw [if_pos long] at collect ⊢
    exact collect.stop
  · rw [if_neg long] at collect ⊢
    apply collect.known
    apply Follows.known (.allocate _)
    apply Follows.bind (setPackedWithin_follows _ _ _ _ _)
    rintro ⟨fork, affected⟩ -
    exact .ret _

theorem applyRangeDeleteWithin_follows (server : Replica) (bytes : List UInt8) :
    Follows (applyRangeDeleteWithin server bytes) (applyRangeDelete server bytes) := by
  unfold applyRangeDeleteWithin applyRangeDelete
  apply Follows.bind (.lift _)
  rintro ⟨⟨first, last⟩, rest⟩ -
  apply Follows.bind (.lift _)
  rintro - -
  exact Follows.known (.allocate _) (.ret _)

theorem applyCasWithin_follows (server : Replica) (bytes : List UInt8) :
    Follows (applyCasWithin server bytes) (applyCas server bytes) := by
  unfold applyCasWithin applyCas
  apply Follows.bind (.lift _)
  rintro ⟨key, rest⟩ -
  apply Follows.bind (.lift _)
  rintro ⟨value, rest⟩ -
  apply Follows.bind (.lift _)
  rintro - -
  apply Follows.bind (.lift _)
  rintro cas -
  apply Follows.bind (.lift _)
  rintro current -
  apply Follows.ite (.ret _)
  exact Follows.bind (.allocate _) (fun tree _ => .ret _)

theorem applyExecItemsWithin_follows (fuel : Nat) (fork : Tree) (bytes : List UInt8) :
    Follows (applyExecItemsWithin fuel fork bytes) (applyExecItems fuel fork bytes) := by
  induction fuel generalizing fork bytes with
  | zero =>
    cases bytes with
    | nil => exact .ret _
    | cons head tail => exact .fail
  | succ fuel ih =>
    cases bytes with
    | nil => exact .ret _
    | cons head tail =>
      unfold applyExecItemsWithin applyExecItems
      apply Follows.bind (.lift _)
      rintro ⟨op, rest⟩ -
      refine Follows.ite ?_ .fail
      apply Follows.bind (.lift _)
      rintro ⟨⟨key, value⟩, rest⟩ -
      apply Follows.bind (.allocate _)
      rintro ⟨fork, hit⟩ -
      exact ih fork rest

theorem kServerApplyExecWithin_follows (server : Replica) (bytes : List UInt8) :
    Follows (kServerApplyExecWithin server bytes) (kServerApplyExec server bytes) := by
  unfold kServerApplyExecWithin kServerApplyExec
  apply Follows.known (.allocate _)
  exact Follows.bind (applyExecItemsWithin_follows _ _ _) (fun fork _ => .ret _)

/-- Up to its commit a command does what it does without refusals, or stops. -/
theorem committed_follows (server : Replica) {op : Nat} {rest command : List UInt8}
    (read : kReaderU8 command = some (op, rest)) (other : op ≠ opAddr) :
    Follows (committed server op rest) (kServerApplyCommand server command) := by
  have plain : kServerApplyCommand server command =
      if op = opMset ∨ op = opMdel then applyBatch server (op = opMset) rest
      else if op = opRset then applyRangeSet server rest
      else if op = opFcall then kServerApplyExec server rest
      else if op = opRdel then applyRangeDelete server rest
      else if op = opCas then applyCas server rest
      else if op = opSet then applySet server rest
      else if op = opDel then applyDelete server rest
      else none := by
    rw [kServerApplyCommand, read]
    simp only [Option.bind_eq_bind, Option.bind_some, if_neg other]
  rw [plain]
  unfold committed
  apply Follows.ite (applyBatchWithin_follows _ _ _)
  apply Follows.ite (applyRangeSetWithin_follows _ _)
  apply Follows.ite (kServerApplyExecWithin_follows _ _)
  apply Follows.ite (applyRangeDeleteWithin_follows _ _)
  apply Follows.ite (applyCasWithin_follows _ _)
  apply Follows.ite (.allocate _)
  exact Follows.ite (.allocate _) .fail

/-! ## The outcome -/

theorem answer_outcome (waiting : Bool) (grants : Grants) (after : Replica)
    (reply : Option Reply) :
    (answer waiting grants after reply).server = after ∧
      ((answer waiting grants after reply).code = 0 ∧
          (answer waiting grants after reply).reply = (if waiting then reply else none) ∨
        (answer waiting grants after reply).code = -1 ∧ waiting = true ∧ false ∈ grants ∧
          ∃ told ∈ reply, told.result ≠ []) := by
  cases reply with
  | none => exact ⟨rfl, .inl ⟨rfl, by simp [answer]⟩⟩
  | some reply =>
    unfold answer
    by_cases quiet : waiting = false
    · subst quiet
      exact ⟨rfl, .inl ⟨rfl, rfl⟩⟩
    rw [Bool.not_eq_false] at quiet
    subst quiet
    dsimp only
    rw [if_neg (by simp)]
    by_cases empty : reply.result = []
    · rw [if_pos empty]
      exact ⟨rfl, .inl ⟨rfl, rfl⟩⟩
    rw [if_neg empty]
    rcases Follows.allocate (some reply) grants with ⟨stopped, none | refused⟩ | ⟨_, _, ran, -, -⟩
    · cases none
    · rw [stopped]
      exact ⟨rfl, .inr ⟨rfl, rfl, refused, reply, rfl, empty⟩⟩
    · rw [ran]
      exact ⟨rfl, .inl ⟨rfl, rfl⟩⟩

/-- A command other than a list of addresses stops with the replica as it was, or leaves
what it leaves without refusals. It then reports a failure only for want of memory for
the answer. -/
theorem within_outcome (waiting : Bool) (grants : Grants) (server : Replica) {op : Nat}
    {rest command : List UInt8} (read : kReaderU8 command = some (op, rest))
    (other : op ≠ opAddr) :
    ((kServerApplyCommandWithin waiting grants server command).code = -1 ∧
        (kServerApplyCommandWithin waiting grants server command).server = server ∧
        (kServerApplyCommand server command = none ∨ false ∈ grants)) ∨
      ∃ after reply, kServerApplyCommand server command = some (after, reply) ∧
        (kServerApplyCommandWithin waiting grants server command).server = after ∧
        ((kServerApplyCommandWithin waiting grants server command).code = 0 ∧
            (kServerApplyCommandWithin waiting grants server command).reply =
              (if waiting then reply else none) ∨
          (kServerApplyCommandWithin waiting grants server command).code = -1 ∧ waiting = true ∧
            false ∈ grants ∧ ∃ told ∈ reply, told.result ≠ []) := by
  have whole : kServerApplyCommandWithin waiting grants server command =
      match committed server op rest grants with
      | none => ⟨-1, server, none⟩
      | some ((after, reply), left) => answer waiting left after reply := by
    rw [kServerApplyCommandWithin, read]
    exact if_neg other
  rcases committed_follows server read other grants with
    ⟨stopped, why⟩ | ⟨⟨after, reply⟩, left, ran, same, fewer⟩
  · rw [whole, stopped]
    exact .inl ⟨rfl, rfl, why⟩
  · rw [whole, ran]
    obtain ⟨kept, told⟩ := answer_outcome waiting left after reply
    refine .inr ⟨after, reply, same, kept, told.imp_right ?_⟩
    rintro ⟨failed, waits, refused, some⟩
    exact ⟨failed, waits, fewer refused, some⟩

theorem applyAddresses_succ (count : Nat) (server : Replica) (bytes : List UInt8) :
    applyAddresses (count + 1) server bytes =
      (applyAddress server bytes).bind fun taken => applyAddresses count taken.1 taken.2 := by
  simp only [applyAddresses, applyAddress, Option.bind_eq_bind, Option.bind_assoc]
  rfl

theorem takeAddresses_of_applied {count : Nat} {server after : Replica} {bytes rest : List UInt8}
    (applied : applyAddresses count server bytes = some (after, rest)) :
    takeAddresses count server bytes = after := by
  induction count generalizing server bytes with
  | zero =>
    cases applied
    rfl
  | succ count ih =>
    rw [applyAddresses_succ, Option.bind_eq_some_iff] at applied
    obtain ⟨⟨next, behind⟩, first, later⟩ := applied
    rw [takeAddresses, first]
    exact ih later

/-- Where no memory is refused, an applicable command is applied and answered. -/
theorem applied_without_refusals {server after : Replica} {command : List UInt8}
    {reply : Option Reply} (applied : kServerApplyCommand server command = some (after, reply)) :
    (kServerApplyCommandWithin true [] server command).code = 0 ∧
      (kServerApplyCommandWithin true [] server command).server = after ∧
      (kServerApplyCommandWithin true [] server command).reply = reply := by
  obtain ⟨⟨op, rest⟩, read, body⟩ := Option.bind_eq_some_iff.mp applied
  by_cases addresses : op = opAddr
  · subst addresses
    have listed : applyAddr server rest = some (after, reply) := body
    obtain ⟨⟨count, list⟩, header, taken⟩ := Option.bind_eq_some_iff.mp listed
    dsimp only at taken
    by_cases many : maxNodes < count
    · rw [if_pos many] at taken
      cases taken
    rw [if_neg many, Option.bind_eq_bind, Option.bind_eq_some_iff] at taken
    obtain ⟨⟨final, behind⟩, walked, ends⟩ := taken
    have kept : kServerApplyCommandWithin true [] server command =
        ⟨0, takeAddresses count server list, none⟩ := by
      rw [kServerApplyCommandWithin, read]
      dsimp only
      rw [if_pos rfl, applyAddrKept, header]
      dsimp only
      rw [if_neg many, listed]
      rfl
    unfold atEnd at ends
    split at ends
    · cases ends
      rw [kept, takeAddresses_of_applied walked]
      exact ⟨rfl, rfl, rfl⟩
    · cases ends
  · rcases within_outcome true [] server read addresses with
      ⟨-, -, none | refused⟩ | ⟨_, _, same, kept, ⟨code, told⟩ | ⟨-, -, refused, -⟩⟩
    · rw [applied] at none
      cases none
    · cases refused
    · rw [applied] at same
      cases same
      exact ⟨code, kept, told⟩
    · cases refused

end Kynovo.Server.Applying
