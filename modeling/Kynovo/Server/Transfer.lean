import Kynovo.Server.Admission
import Kynovo.Server.Strtou64
import Kynovo.Store.Order

/-! The built-in transfer command. It reads two balances from the working copy,
checks them, and writes both accounts; the writes are recorded as the write set that
every replica later applies. The credit is computed from the balance that was read
before the debit was written. -/
namespace Kynovo.Server.Transfer
open Kynovo.Lib.LittleEndian
open Kynovo.Wal.Record
open Kynovo.Store.Treap
open Kynovo.Store.Order
open Kynovo.Server.Command
open Kynovo.Server.Admission
open Kynovo.Server.Strtou64

/-- What a command works on: the working copy, its write set and its result. -/
structure CmdCtx where
  txn : Tree
  writes : List UInt8
  writeCount : Nat
  result : List UInt8

/-- A value goes to the working copy and into the write set. -/
def kCmdPut (ctx : CmdCtx) (key value : List UInt8) : CmdCtx × Int :=
  if key = [] ∨ keyMax < key.length ∨ valueMax < value.length then (ctx, -1)
  else
    match treapSet ctx.txn key value with
    | none => (ctx, -1)
    | some txn =>
      ({ ctx with
        txn
        writes := ctx.writes ++ (leBytes 1 opSet ++ (sized key ++ sized value))
        writeCount := ctx.writeCount + 1 }, 0)

/-- The arguments: two account keys and the text of the amount. -/
def readTransfer (args : List UInt8) : Option (List UInt8 × List UInt8 × List UInt8) := do
  if args.length < 12 then none
  else
    let (source, rest) ← readSized 1 keyMax args
    let (target, rest) ← readSized 1 keyMax rest
    let (amount, rest) ← readSized 1 31 rest
    atEnd (source, target, amount) rest

/-- The balance of an account, as far as its text fits the buffer. -/
def readBalance (tree : Tree) (account : List UInt8) : Option Nat :=
  match treapGet tree account with
  | some (some text) => if 32 ≤ text.length then none else some (kStrtou64 text 10).1
  | _ => none

/-- Both balances after the checks, with the amount. -/
structure Checked where
  source : List UInt8
  target : List UInt8
  amount : Nat
  debit : Nat
  credit : Nat

def checkTransfer (tree : Tree) (args : List UInt8) : Option Checked := do
  let (source, target, text) ← readTransfer args
  let amount := (kStrtou64 text 10).1
  let debit ← readBalance tree source
  let credit ← readBalance tree target
  if debit < amount ∨ u64Max - amount < credit then none
  else return ⟨source, target, amount, debit, credit⟩

def kCmdTransfer (ctx : CmdCtx) (args : List UInt8) : CmdCtx × Int :=
  match checkTransfer ctx.txn args with
  | none => (ctx, -1)
  | some checked =>
    let (ctx, rc) := kCmdPut ctx checked.source (decimal (checked.debit - checked.amount))
    if rc ≠ 0 then (ctx, -1)
    else
      let (ctx, rc) := kCmdPut ctx checked.target (decimal (checked.credit + checked.amount))
      if rc ≠ 0 then (ctx, -1) else ({ ctx with result := ctx.result ++ [111, 107] }, 0)

/-- A command starts on a fresh working copy with empty buffers. -/
def startCmd (tree : Tree) : CmdCtx := ⟨treapFork tree, [], 0, []⟩

/-- A replica applies a write set to a working copy and commits it. -/
def applyWrites (tree : Tree) (writes : List UInt8) : Option Tree :=
  (applyExecItems writes.length (treapFork tree) writes).map (fun fork => treapCommit fork tree)

/-! ## Balances and totals -/

/-- The number an account's value stands for. -/
def balance (entry : Entry) : Nat := (kStrtou64 entry.value 10).1

/-- The balance of a key; an absent account has none. -/
def balanceOf (tree : Tree) (account : List UInt8) : Nat :=
  ((treapFind tree.root account).map balance).getD 0

/-- The sum of all account values. -/
def total (tree : Tree) : Nat := (tree.root.entries.map balance).sum

/-- The balances move by exactly the amount, over the unbounded naturals: nothing goes
below zero and nothing wraps. -/
structure Moved (before after : Tree) (source target : List UInt8) (amount : Nat) : Prop where
  debited : balanceOf after source + amount = balanceOf before source
  credited : balanceOf after target = balanceOf before target + amount
  bounded : ∀ account, balanceOf after account ≤ u64Max

/-- What the command promises: a success conserves the total and wraps nothing, a
failure writes nothing. -/
def Conserves (tree : Tree) (args : List UInt8) : Prop :=
  ((kCmdTransfer (startCmd tree) args).2 = 0 →
    ∃ after, applyWrites tree (kCmdTransfer (startCmd tree) args).1.writes = some after ∧
      total after = total tree ∧
      ∀ source target text, readTransfer args = some (source, target, text) →
        Moved tree after source target (kStrtou64 text 10).1) ∧
  ((kCmdTransfer (startCmd tree) args).2 ≠ 0 → (kCmdTransfer (startCmd tree) args).1.writes = [])

/-- The arguments name one account twice, with an amount above zero that passes the
checks on its balance. -/
def ToItself (tree : Tree) (args : List UInt8) : Prop :=
  ∃ account text held, readTransfer args = some (account, account, text) ∧
    readBalance tree account = some held ∧ 0 < (kStrtou64 text 10).1 ∧
    (kStrtou64 text 10).1 ≤ held ∧ held + (kStrtou64 text 10).1 ≤ u64Max

theorem balance_le (entry : Entry) : balance entry ≤ u64Max := kStrtou64_le entry.value 10

theorem balanceOf_le (tree : Tree) (account : List UInt8) : balanceOf tree account ≤ u64Max := by
  unfold balanceOf
  cases treapFind tree.root account with
  | none => exact Nat.zero_le _
  | some entry => exact balance_le entry

theorem readBalance_some {tree : Tree} {account : List UInt8} {held : Nat}
    (read : readBalance tree account = some held) :
    (treapFind tree.root account).isSome = true ∧ balanceOf tree account = held := by
  unfold readBalance treapGet at read
  split at read
  · rename_i text found
    split at found
    · cases found
    · obtain ⟨entry, located, rfl⟩ := Option.map_eq_some_iff.mp (Option.some.inj found)
      split at read
      · cases read
      · cases read
        rw [balanceOf, located]
        exact ⟨rfl, rfl⟩
  · cases read

/-- Setting an account that exists moves the total by the difference. -/
theorem total_putEntry {tree : Tree} (ordered : Ordered tree.root) (entry : Entry)
    (present : (treapFind tree.root entry.key).isSome = true) :
    total (putEntry tree entry) + balanceOf tree entry.key = total tree + balance entry := by
  have found := (around ordered entry.key).find ordered
  unfold total balanceOf putEntry
  dsimp only
  rw [found] at present ⊢
  obtain ⟨held, here⟩ := Option.isSome_iff_exists.mp present
  rw [setRoot_around ordered, (around ordered entry.key).whole, here]
  simp only [List.map_append, List.map_cons, List.sum_append, List.sum_cons, Option.toList_some,
    List.map_nil, List.sum_nil, Option.map_some, Option.getD_some]
  omega

theorem balanceOf_putEntry {tree : Tree} (ordered : Ordered tree.root) (entry : Entry)
    (account : List UInt8) :
    balanceOf (putEntry tree entry) account =
      if entry.key = account then balance entry else balanceOf tree account := by
  unfold balanceOf
  rw [show (putEntry tree entry).root = setRoot tree.root entry from rfl,
    treapFind_setRoot ordered]
  split
  · rfl
  · rfl

/-! ## Writing an account -/

theorem decimal_short {n : Nat} (fits : n ≤ u64Max) : (decimal n).length ≤ valueMax := by
  have digits := Nat.toDigits_length 10 n 20 (by decide) (by simp only [u64Max] at fits; omega)
  simp only [decimal, List.length_map, valueMax]
  omega

/-- The entry of an account with this balance. -/
theorem treapSet_account {tree : Tree} {account : List UInt8} {n : Nat} (named : 1 ≤ account.length)
    (short : account.length ≤ keyMax) (fits : n ≤ u64Max) :
    ∃ entry, treapSet tree account (decimal n) = some (putEntry tree entry) ∧
      entry.key = account ∧ balance entry = n := by
  obtain ⟨after, set⟩ := @treapSet_isSome tree account (decimal n) named short (decimal_short fits)
  obtain ⟨entry, made, rfl⟩ := Option.map_eq_some_iff.mp set
  have shape : entry.key = account ∧ entry.value = decimal n := by
    unfold treapNodeInit at made
    split at made
    · cases made
      exact ⟨rfl, rfl⟩
    · cases made
  obtain ⟨key, value⟩ := shape
  refine ⟨entry, set, key, ?_⟩
  rw [balance, value, kStrtou64_decimal fits]

theorem kCmdPut_account {ctx : CmdCtx} {account : List UInt8} {n : Nat} {entry : Entry}
    (named : 1 ≤ account.length) (short : account.length ≤ keyMax) (fits : n ≤ u64Max)
    (set : treapSet ctx.txn account (decimal n) = some (putEntry ctx.txn entry)) :
    kCmdPut ctx account (decimal n) =
      ({ ctx with
        txn := putEntry ctx.txn entry
        writes := ctx.writes ++ (leBytes 1 opSet ++ (sized account ++ sized (decimal n)))
        writeCount := ctx.writeCount + 1 }, 0) := by
  have filled : account ≠ [] := List.ne_nil_of_length_pos named
  have small := decimal_short fits
  unfold kCmdPut
  rw [if_neg (by push Not; exact ⟨filled, short, small⟩), set]

/-- One record of a write set, applied. -/
theorem applyExecItems_account {fuel : Nat} {fork : Tree} {account rest : List UInt8} {n : Nat}
    {entry : Entry} (named : 1 ≤ account.length) (short : account.length ≤ keyMax)
    (fits : n ≤ u64Max)
    (set : treapSet fork account (decimal n) = some (putEntry fork entry)) :
    applyExecItems (fuel + 1) fork (leBytes 1 opSet ++ (sized account ++ sized (decimal n)) ++ rest) =
      applyExecItems fuel (putEntry fork entry) rest := by
  have header : kReaderU8 (leBytes 1 opSet ++ ((sized account ++ sized (decimal n)) ++ rest)) =
      some (opSet, sized account ++ sized (decimal n) ++ rest) := kReaderU8_op (by decide) _
  have item : readItem true (sized account ++ (sized (decimal n) ++ rest)) =
      some ((account, decimal n), rest) := by
    unfold readItem
    rw [readSized_sized 1 keyMax _ (by decide) named short]
    simp [readSized_sized 0 valueMax rest (by decide) (Nat.zero_le _) (decimal_short fits)]
  rw [List.append_assoc]
  have filled : leBytes 1 opSet ++ ((sized account ++ sized (decimal n)) ++ rest) =
      UInt8.ofNat opSet :: ((sized account ++ sized (decimal n)) ++ rest) := rfl
  rw [filled] at header ⊢
  rw [applyExecItems]
  · simp only [Option.bind_eq_bind]
    rw [header, List.append_assoc]
    simp [item, applyItem, set]
  · intro empty
    cases empty

/-! ## The whole command -/

theorem readTransfer_some {args source target text : List UInt8}
    (read : readTransfer args = some (source, target, text)) :
    (1 ≤ source.length ∧ source.length ≤ keyMax) ∧ (1 ≤ target.length ∧ target.length ≤ keyMax) := by
  unfold readTransfer at read
  split at read
  · cases read
  · simp only [Option.bind_eq_bind, Option.bind_eq_some_iff] at read
    obtain ⟨⟨first, rest⟩, one, ⟨second, rest'⟩, two, ⟨third, rest''⟩, -, ends⟩ := read
    obtain ⟨-, same⟩ := atEnd_some ends
    cases same
    obtain ⟨-, low, high⟩ := (readSized_some_iff (by decide)).mp one
    obtain ⟨-, low', high'⟩ := (readSized_some_iff (by decide)).mp two
    exact ⟨⟨low, high⟩, ⟨low', high'⟩⟩

/-- What the checks have established. -/
theorem checkTransfer_some {tree : Tree} {args : List UInt8} {checked : Checked}
    (passed : checkTransfer tree args = some checked) :
    ∃ text, readTransfer args = some (checked.source, checked.target, text) ∧
      checked.amount = (kStrtou64 text 10).1 ∧
      readBalance tree checked.source = some checked.debit ∧
      readBalance tree checked.target = some checked.credit ∧
      checked.amount ≤ checked.debit ∧ checked.credit + checked.amount ≤ u64Max := by
  unfold checkTransfer at passed
  simp only [Option.bind_eq_bind, Option.bind_eq_some_iff] at passed
  obtain ⟨⟨source, target, text⟩, read, debit, held, credit, other, body⟩ := passed
  dsimp only at held other body
  split at body
  · cases body
  · rename_i allowed
    have small := kStrtou64_le text 10
    cases body
    push Not at allowed
    exact ⟨text, read, rfl, held, other, allowed.1, by dsimp only; omega⟩

/-- The state of a replica after the debit and then the credit were written. -/
theorem kCmdTransfer_writes {tree : Tree} {args : List UInt8} {checked : Checked}
    (passed : checkTransfer tree args = some checked) :
    ∃ debited credited, debited.key = checked.source ∧ credited.key = checked.target ∧
      balance debited = checked.debit - checked.amount ∧
      balance credited = checked.credit + checked.amount ∧
      (kCmdTransfer (startCmd tree) args).2 = 0 ∧
      applyWrites tree (kCmdTransfer (startCmd tree) args).1.writes =
        some (treapCommit (putEntry (putEntry (treapFork tree) debited) credited) tree) := by
  obtain ⟨text, read, -, held, -, enough, room⟩ := checkTransfer_some passed
  obtain ⟨⟨named, short⟩, named', short'⟩ := readTransfer_some read
  have bounded : checked.debit - checked.amount ≤ u64Max := by
    have limit := balanceOf_le tree checked.source
    rw [(readBalance_some held).2] at limit
    omega
  obtain ⟨debited, set, key, value⟩ :=
    @treapSet_account (treapFork tree) checked.source _ named short bounded
  obtain ⟨credited, set', key', value'⟩ :=
    @treapSet_account (putEntry (treapFork tree) debited) checked.target _ named' short' room
  refine ⟨debited, credited, key, key', value, value', ?_⟩
  have started : checkTransfer (startCmd tree).txn args = some checked := passed
  unfold kCmdTransfer
  rw [started]
  dsimp only
  rw [@kCmdPut_account (startCmd tree) _ _ _ named short bounded set]
  dsimp only
  have put := fun writes count result => @kCmdPut_account
    ⟨putEntry (startCmd tree).txn debited, writes, count, result⟩ _ _ _ named' short' room set'
  rw [if_neg (by decide), put]
  dsimp only
  rw [if_neg (by decide)]
  refine ⟨rfl, ?_⟩
  -- two records are applied, each with its own unit of fuel
  have long : 2 ≤ ((startCmd tree).writes ++ (leBytes 1 opSet ++ (sized checked.source ++
      sized (decimal (checked.debit - checked.amount)))) ++ (leBytes 1 opSet ++ (sized checked.target ++
      sized (decimal (checked.credit + checked.amount))))).length := by
    simp only [List.length_append, leBytes_length]
    omega
  obtain ⟨fuel, long⟩ := Nat.exists_eq_add_of_le' long
  unfold applyWrites
  rw [long]
  have first := @applyExecItems_account (fuel + 1) (treapFork tree) checked.source
    (leBytes 1 opSet ++ (sized checked.target ++ sized (decimal (checked.credit + checked.amount))))
    _ debited named short bounded set
  have second := @applyExecItems_account fuel (putEntry (treapFork tree) debited) checked.target
    [] _ credited named' short' room set'
  rw [List.append_nil] at second
  rw [show (startCmd tree).writes = [] from rfl, List.nil_append, first, second]
  cases fuel <;> rfl

theorem ordered_putEntry {tree : Tree} (ordered : Ordered tree.root) (entry : Entry) :
    Ordered (putEntry tree entry).root := ordered_setRoot ordered entry

/-- A transfer that fails its checks changes nothing. -/
theorem refused_conserves {tree : Tree} {args : List UInt8} (refused : checkTransfer tree args = none) :
    Conserves tree args := by
  have failed : kCmdTransfer (startCmd tree) args = (startCmd tree, -1) := by
    unfold kCmdTransfer
    rw [show checkTransfer (startCmd tree).txn args = none from refused]
  unfold Conserves
  rw [failed]
  exact ⟨fun success => by simp at success, fun _ => rfl⟩

/-- Moving an amount from an account to itself passes the checks. -/
theorem toItself_passes {tree : Tree} {args : List UInt8} (itself : ToItself tree args) :
    checkTransfer tree args ≠ none := by
  obtain ⟨account, text, held, read, found, positive, enough, room⟩ := itself
  intro refused
  simp only [checkTransfer, read, found, Option.bind_eq_bind, Option.bind_some] at refused
  rw [if_neg (by omega)] at refused
  cases refused

/-- What both writes leave: the credit stands, and it is the only one that does where it
goes to the account of the debit. -/
theorem kCmdTransfer_balances {tree : Tree} {args : List UInt8} {checked : Checked}
    (ordered : Ordered tree.root) (passed : checkTransfer tree args = some checked) :
    ∃ after, (kCmdTransfer (startCmd tree) args).2 = 0 ∧
      applyWrites tree (kCmdTransfer (startCmd tree) args).1.writes = some after ∧
      total after = total tree + (if checked.source = checked.target then checked.amount else 0) ∧
      balanceOf after checked.target = checked.credit + checked.amount ∧
      (checked.source ≠ checked.target →
        balanceOf after checked.source = checked.debit - checked.amount) := by
  obtain ⟨text, -, -, held, other, enough, room⟩ := checkTransfer_some passed
  obtain ⟨debited, credited, key, key', value, value', success, applied⟩ :=
    kCmdTransfer_writes passed
  obtain ⟨present, heldIs⟩ := readBalance_some held
  obtain ⟨present', otherIs⟩ := readBalance_some other
  have source : balanceOf (treapFork tree) checked.source = checked.debit := heldIs
  have target : balanceOf (treapFork tree) checked.target = checked.credit := otherIs
  have ordered' : Ordered (putEntry (treapFork tree) debited).root := ordered_putEntry ordered debited
  have debit := @total_putEntry (treapFork tree) ordered debited (by rw [key]; exact present)
  have found := @treapFind_setRoot tree.root ordered debited checked.target
  have credit := @total_putEntry _ ordered' credited (by
    rw [key']
    change (treapFind (setRoot tree.root debited) _).isSome = true
    rw [found]
    split
    · rfl
    · exact present')
  have before := @balanceOf_putEntry (treapFork tree) ordered debited
  have after := @balanceOf_putEntry _ ordered' credited
  simp only [key, value] at before debit
  simp only [key', value'] at after credit
  refine ⟨_, success, applied, ?_, ?_, ?_⟩
  · change total (putEntry (putEntry (treapFork tree) debited) credited) = total (treapFork tree) + _
    have middle := before checked.target
    by_cases same : checked.source = checked.target
    · have balances : checked.debit = checked.credit := by rw [← heldIs, ← otherIs, same]
      rw [if_pos same] at middle ⊢
      omega
    · rw [if_neg same]
      rw [if_neg same] at middle
      omega
  · exact (after checked.target).trans (if_pos rfl)
  · intro apart
    have last := after checked.source
    have now := before checked.source
    rw [if_neg (Ne.symm apart)] at last
    rw [if_pos rfl] at now
    exact last.trans now

/-- A transfer keeps its promise exactly when it does not move an amount from an
account to itself: the credit, computed from the balance before the debit, would then
be the only write that stays. -/
theorem transfer_conserves_iff {tree : Tree} (ordered : Ordered tree.root) (args : List UInt8) :
    Conserves tree args ↔ ¬ ToItself tree args := by
  cases passed : checkTransfer tree args with
  | none => exact ⟨fun _ itself => toItself_passes itself passed, fun _ => refused_conserves passed⟩
  | some checked =>
    obtain ⟨text, read, amount, held, other, enough, room⟩ := checkTransfer_some passed
    obtain ⟨after, success, applied, moved, credited, debited⟩ := kCmdTransfer_balances ordered passed
    have balances : checked.source = checked.target → checked.debit = checked.credit := by
      intro same
      rw [← (readBalance_some held).2, ← (readBalance_some other).2, same]
    constructor
    · rintro ⟨conserved, -⟩ ⟨account, text', held', read', -, positive, -, -⟩
      obtain ⟨first, others⟩ := Prod.mk.inj (Option.some.inj (read.symm.trans read'))
      obtain ⟨second, rfl⟩ := Prod.mk.inj others
      obtain ⟨tree', applied', kept, -⟩ := conserved success
      cases applied.symm.trans applied'
      rw [if_pos (first.trans second.symm)] at moved
      omega
    · intro harmless
      have nothing : checked.source = checked.target → checked.amount = 0 := by
        intro same
        have equal := balances same
        by_contra some
        apply harmless
        refine ⟨checked.source, text, checked.debit, ?_, held, by omega, by omega, by omega⟩
        rw [read, same]
      refine ⟨fun _ => ⟨after, applied, ?_, ?_⟩, fun failed => absurd success failed⟩
      · split at moved
        · rename_i same
          have zero := nothing same
          omega
        · omega
      · intro source' target' text' read'
        obtain ⟨rfl, others⟩ := Prod.mk.inj (Option.some.inj (read.symm.trans read'))
        obtain ⟨rfl, rfl⟩ := Prod.mk.inj others
        rw [← amount]
        refine ⟨?_, ?_, fun account => balanceOf_le _ account⟩
        · rw [(readBalance_some held).2]
          by_cases same : checked.source = checked.target
          · have zero := nothing same
            have equal := balances same
            rw [same, credited]
            omega
          · rw [debited same]
            omega
        · rw [(readBalance_some other).2]
          exact credited

/-- An empty treap with one account, whose value is given. -/
def oneAccount (value : List UInt8) : Option Tree := treapSet (treapCreate 1) [97] value

theorem ordered_oneAccount {value : List UInt8} {tree : Tree} (made : oneAccount value = some tree) :
    Ordered tree.root := by
  unfold oneAccount treapSet at made
  obtain ⟨entry, -, rfl⟩ := Option.map_eq_some_iff.mp made
  exact @ordered_putEntry (treapCreate 1) List.Pairwise.nil entry

/-- The arguments of a transfer of this amount. -/
def transferArgs (source target amount : List UInt8) : List UInt8 :=
  sized source ++ (sized target ++ sized amount)

/-- An account that holds 10 pays itself 5 and then holds 15. -/
theorem paid_itself_not_conserved : ∃ tree, oneAccount [49, 48] = some tree ∧
    Ordered tree.root ∧ ¬ Conserves tree (transferArgs [97] [97] [53]) := by
  have tested : (oneAccount [49, 48]).any (fun tree =>
      decide ((kCmdTransfer (startCmd tree) (transferArgs [97] [97] [53])).2 = 0) &&
        (applyWrites tree (kCmdTransfer (startCmd tree) (transferArgs [97] [97] [53])).1.writes).any
          (fun after => decide (total after = 15)) && decide (total tree = 10)) = true := by
    decide +kernel
  obtain ⟨tree, made, checks⟩ := (Option.any_eq_true _ _).mp tested
  simp only [Bool.and_eq_true, decide_eq_true_eq] at checks
  obtain ⟨⟨success, written⟩, start⟩ := checks
  refine ⟨tree, made, ordered_oneAccount made, ?_⟩
  rintro ⟨conserved, -⟩
  obtain ⟨after, applied, kept, -⟩ := conserved success
  rw [applied] at written
  simp only [Option.any_some, decide_eq_true_eq] at written
  omega

/-- Two accounts that hold 10 and 3. -/
def twoAccounts : Option Tree := (oneAccount [49, 48]).bind fun tree => treapSet tree [98] [51]

theorem ordered_twoAccounts {tree : Tree} (made : twoAccounts = some tree) : Ordered tree.root := by
  obtain ⟨first, opened, set⟩ := Option.bind_eq_some_iff.mp made
  unfold treapSet at set
  obtain ⟨entry, -, rfl⟩ := Option.map_eq_some_iff.mp set
  exact ordered_putEntry (ordered_oneAccount opened) entry

/-- The first pays the second 5, which succeeds and leaves 5 and 8. -/
theorem paid_other_conserved : ∃ tree, twoAccounts = some tree ∧ Ordered tree.root ∧
    (kCmdTransfer (startCmd tree) (transferArgs [97] [98] [53])).2 = 0 ∧
    Conserves tree (transferArgs [97] [98] [53]) := by
  have tested : twoAccounts.any (fun tree =>
      decide ((kCmdTransfer (startCmd tree) (transferArgs [97] [98] [53])).2 = 0)) = true := by
    decide +kernel
  obtain ⟨tree, made, success⟩ := (Option.any_eq_true _ _).mp tested
  have ordered := ordered_twoAccounts made
  refine ⟨tree, made, ordered, of_decide_eq_true success, (transfer_conserves_iff ordered _).mpr ?_⟩
  rintro ⟨account, text, held, read, -⟩
  have parsed : readTransfer (transferArgs [97] [98] [53]) = some ([97], [98], [53]) := by
    decide +kernel
  obtain ⟨rfl, both⟩ := Prod.mk.inj (Option.some.inj (parsed.symm.trans read))
  cases (Prod.mk.inj both).1

end Kynovo.Server.Transfer
