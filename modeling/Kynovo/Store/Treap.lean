import Mathlib.Data.List.Basic
import Mathlib.Data.UInt
import Kynovo.Lib.LittleEndian

/-! The ordered store: a treap whose priorities are hashes of its keys. Nodes are
never changed in place, so a tree is a value and a fork is a copy of its root.
Allocation is taken to succeed; every other refusal of the source is kept. -/
namespace Kynovo.Store.Treap
open Kynovo.Lib.LittleEndian

/-- Bytes of a node with an inline key of this length. -/
def treapNodeBytes (keyLen : Nat) : Nat := 72 + keyLen

/-- What a node holds. A node is only made for a non-empty key whose node size
fits 32 bits; the value length is a 32-bit field. -/
structure Entry where
  key : List UInt8
  value : List UInt8
  priority : UInt64
  keyed : key ≠ []
  keyFits : treapNodeBytes key.length ≤ 0xffffffff
  valueFits : value.length ≤ 0xffffffff
deriving DecidableEq, Repr

inductive Nodes where
  | nil
  | node (left : Nodes) (entry : Entry) (right : Nodes)
deriving DecidableEq, Repr

namespace Nodes

/-- The entries in key order. -/
def entries : Nodes → List Entry
  | nil => []
  | node left entry right => left.entries ++ entry :: right.entries

end Nodes

open Nodes

/-- A tree with its node count and the captured view a running save reads. -/
structure Tree where
  root : Nodes
  count : Nat
  seed : UInt64
  snap : Nodes
  counted : count = root.entries.length
deriving DecidableEq, Repr

def treapCreate (seed : UInt64) : Tree where
  root := nil
  count := 0
  seed := seed
  snap := nil
  counted := rfl

/-- Bytes are compared first; of two keys with a common prefix the shorter one
comes first. -/
def treapKeyCmp : List UInt8 → List UInt8 → Ordering
  | [], [] => .eq
  | [], _ :: _ => .lt
  | _ :: _, [] => .gt
  | a :: as, b :: bs => if a < b then .lt else if b < a then .gt else treapKeyCmp as bs

def treapHash (seed : UInt64) (key : List UInt8) : UInt64 :=
  let h := key.foldl (fun h byte => (h ^^^ byte.toUInt64) * 1099511628211)
    (seed ^^^ 14695981039346656037)
  let h := (h ^^^ (h >>> 33)) * 0xff51afd7ed558ccd
  let h := (h ^^^ (h >>> 33)) * 0xc4ceb9fe1a85ec53
  h ^^^ (h >>> 33)

/-- Priorities first, keys break ties. -/
def treapPriorityCmp (a b : Entry) : Ordering :=
  if a.priority > b.priority then .gt
  else if a.priority < b.priority then .lt
  else treapKeyCmp a.key b.key

def treapFind : Nodes → List UInt8 → Option Entry
  | nil, _ => none
  | node left entry right, key =>
    match treapKeyCmp key entry.key with
    | .eq => some entry
    | .lt => treapFind left key
    | .gt => treapFind right key

/-- The entries below `key`, and those at or above it. -/
def treapSplit (key : List UInt8) : Nodes → Nodes × Nodes
  | nil => (nil, nil)
  | node left entry right =>
    if treapKeyCmp key entry.key ≠ .gt then
      let (l, r) := treapSplit key left
      (l, node r entry right)
    else
      let (l, r) := treapSplit key right
      (node left entry l, r)

/-- The right-hand descent of a merge: `below` merges what hangs to the right of
`top` with the current tree. -/
def mergeUnder (left : Nodes) (top : Entry) (whole : Nodes) (below : Nodes → Nodes) : Nodes → Nodes
  | nil => whole
  | node rl re rr =>
    if treapPriorityCmp top re = .gt then node left top (below (node rl re rr))
    else node (mergeUnder left top whole below rl) re rr

def treapMerge : Nodes → Nodes → Nodes
  | nil => fun right => right
  | node left entry right =>
    mergeUnder left entry (node left entry right) (fun other => treapMerge right other)

def treapRemoveMin : Nodes → Nodes
  | nil => nil
  | node nil _ right => right
  | node (node ll le lr) entry right => node (treapRemoveMin (node ll le lr)) entry right

/-- The leftmost entry. -/
def leftmost : Nodes → Option Entry
  | nil => none
  | node nil entry _ => some entry
  | node (node ll le lr) _ _ => leftmost (node ll le lr)

/-- The split point already holds the key. -/
def holdsAtMin (tree : Nodes) (key : List UInt8) : Bool :=
  (leftmost tree).any (fun entry => treapKeyCmp entry.key key == .eq)

/-- What remains right of the split point once an entry with the key is gone. -/
def withoutMin (tree : Nodes) (key : List UInt8) : Nodes :=
  if holdsAtMin tree key then treapRemoveMin tree else tree

def setRoot (root : Nodes) (entry : Entry) : Nodes :=
  let (l, r) := treapSplit entry.key root
  treapMerge l (treapMerge (node nil entry nil) (withoutMin r entry.key))

/-! ## Entries of the results -/

theorem treapSplit_entries (key : List UInt8) (tree : Nodes) :
    (treapSplit key tree).1.entries ++ (treapSplit key tree).2.entries = tree.entries := by
  induction tree with
  | nil => rfl
  | node left entry right ihl ihr =>
    unfold treapSplit
    by_cases low : treapKeyCmp key entry.key ≠ .gt
    · rw [if_pos low]
      simp only [entries, ← ihl, List.append_assoc]
    · rw [if_neg low]
      simp only [entries, ← ihr, List.append_assoc, List.cons_append]

theorem mergeUnder_entries {left : Nodes} {top : Entry} {whole : Nodes} {below : Nodes → Nodes}
    {front back : List Entry} (covers : whole.entries = left.entries ++ top :: back)
    (joins : ∀ tree, (below tree).entries = back ++ tree.entries)
    (shape : front = left.entries ++ top :: back) (tree : Nodes) :
    (mergeUnder left top whole below tree).entries = front ++ tree.entries := by
  induction tree with
  | nil => simp [mergeUnder, covers, shape, entries]
  | node rl re rr ihl _ =>
    by_cases higher : treapPriorityCmp top re = .gt
    · simp [mergeUnder, higher, entries, joins, shape]
    · simp [mergeUnder, higher, entries, ihl]

theorem treapMerge_entries (left right : Nodes) :
    (treapMerge left right).entries = left.entries ++ right.entries := by
  induction left generalizing right with
  | nil => rfl
  | node ll le lr _ ihr =>
    exact mergeUnder_entries rfl ihr rfl right

theorem treapRemoveMin_entries (tree : Nodes) :
    (treapRemoveMin tree).entries = tree.entries.tail := by
  fun_induction treapRemoveMin tree with
  | case1 => rfl
  | case2 entry right => rfl
  | case3 ll le lr entry right ih =>
    have filled : (node ll le lr).entries ≠ [] := by simp [entries]
    calc (node (treapRemoveMin (node ll le lr)) entry right).entries
        = (node ll le lr).entries.tail ++ entry :: right.entries := by rw [entries, ih]
      _ = ((node ll le lr).entries ++ entry :: right.entries).tail :=
          (List.tail_append_of_ne_nil filled).symm

theorem leftmost_eq_head (tree : Nodes) : leftmost tree = tree.entries.head? := by
  fun_induction leftmost tree with
  | case1 => rfl
  | case2 entry right => rfl
  | case3 ll le lr entry right ih =>
    have filled : (node ll le lr).entries ≠ [] := by simp [entries]
    rw [ih]
    exact (List.head?_append_of_ne_nil _ filled).symm

theorem withoutMin_entries (tree : Nodes) (key : List UInt8) :
    (withoutMin tree key).entries =
      if holdsAtMin tree key then tree.entries.tail else tree.entries := by
  unfold withoutMin
  split
  · exact treapRemoveMin_entries tree
  · rfl

/-- An entry at the split point can only be there when the tree is not empty. -/
theorem entries_pos_of_holds {tree : Nodes} {key : List UInt8} (holds : holdsAtMin tree key = true) :
    0 < tree.entries.length := by
  cases shape : tree.entries with
  | nil => simp [holdsAtMin, leftmost_eq_head, shape] at holds
  | cons entry rest => simp

theorem setRoot_entries (root : Nodes) (entry : Entry) :
    (setRoot root entry).entries = (treapSplit entry.key root).1.entries ++
      entry :: (withoutMin (treapSplit entry.key root).2 entry.key).entries := by
  simp [setRoot, treapMerge_entries, entries]

theorem setRoot_length (root : Nodes) (entry : Entry) :
    (setRoot root entry).entries.length =
      if holdsAtMin (treapSplit entry.key root).2 entry.key then root.entries.length
      else root.entries.length + 1 := by
  have whole := congrArg List.length (treapSplit_entries entry.key root)
  rw [List.length_append] at whole
  rw [setRoot_entries, withoutMin_entries]
  by_cases holds : holdsAtMin (treapSplit entry.key root).2 entry.key = true
  · have filled := entries_pos_of_holds holds
    simp only [holds, if_true, List.length_append, List.length_cons, List.length_tail]
    omega
  · simp only [holds, List.length_append, List.length_cons]
    simp only [Bool.false_eq_true, if_false]
    omega

/-! ## Operations -/

/-- A new entry is published; a key already present is replaced. -/
def putEntry (t : Tree) (entry : Entry) : Tree where
  root := setRoot t.root entry
  count := if holdsAtMin (treapSplit entry.key t.root).2 entry.key then t.count else t.count + 1
  seed := t.seed
  snap := t.snap
  counted := by rw [setRoot_length, ← t.counted]

/-- The node of a key and value, when the key is not empty and the node fits. -/
def treapNodeInit (seed : UInt64) (key value : List UInt8) : Option Entry :=
  if fits : key ≠ [] ∧ treapNodeBytes key.length ≤ 0xffffffff ∧ value.length ≤ 0xffffffff then
    some {
      key := key
      value := value
      priority := treapHash seed key
      keyed := fits.1
      keyFits := fits.2.1
      valueFits := fits.2.2 }
  else none

def treapSet (t : Tree) (key value : List UInt8) : Option Tree :=
  (treapNodeInit t.seed key value).map (putEntry t)

theorem removed_length (root : Nodes) (key : List UInt8)
    (holds : holdsAtMin (treapSplit key root).2 key = true) :
    (treapMerge (treapSplit key root).1 (treapRemoveMin (treapSplit key root).2)).entries.length =
      root.entries.length - 1 := by
  have whole := congrArg List.length (treapSplit_entries key root)
  have filled := entries_pos_of_holds holds
  rw [List.length_append] at whole
  rw [treapMerge_entries, treapRemoveMin_entries, List.length_append, List.length_tail]
  omega

/-- `none` for an empty key; otherwise whether the key was there. -/
def treapDelete (t : Tree) (key : List UInt8) : Option (Tree × Bool) :=
  if key = [] then none
  else if holds : holdsAtMin (treapSplit key t.root).2 key = true then
    some ({ t with
      root := treapMerge (treapSplit key t.root).1 (treapRemoveMin (treapSplit key t.root).2)
      count := t.count - 1
      counted := by rw [removed_length t.root key holds, ← t.counted] }, true)
  else some (t, false)

/-- The parts left of, inside and right of the range; an empty bound is open. -/
def rangeParts (root : Nodes) (first last : List UInt8) : Nodes × Nodes × Nodes :=
  let (l, m) := if first = [] then (nil, root) else treapSplit first root
  let (m, r) := if last = [] then (m, nil) else treapSplit last m
  (l, m, r)

theorem rangeParts_entries (root : Nodes) (first last : List UInt8) :
    (rangeParts root first last).1.entries ++ ((rangeParts root first last).2.1.entries ++
      (rangeParts root first last).2.2.entries) = root.entries := by
  by_cases low : first = []
  · by_cases high : last = []
    · simp [rangeParts, low, high, entries]
    · simpa [rangeParts, low, high, entries] using treapSplit_entries last root
  · by_cases high : last = []
    · simpa [rangeParts, low, high, entries] using treapSplit_entries first root
    · simpa [rangeParts, low, high, treapSplit_entries last] using treapSplit_entries first root

/-- The tree without the range and the number of removed keys. -/
def treapDeleteRange (t : Tree) (first last : List UInt8) : Tree × Nat :=
  let parts := rangeParts t.root first last
  ({ t with
    root := treapMerge parts.1 parts.2.2
    count := t.count - parts.2.1.entries.length
    counted := by
      have whole := congrArg List.length (rangeParts_entries t.root first last)
      rw [List.length_append, List.length_append] at whole
      have kept := congrArg List.length (treapMerge_entries parts.1 parts.2.2)
      rw [List.length_append] at kept
      have counted := t.counted
      simp only [parts] at kept ⊢
      omega }, parts.2.1.entries.length)

/-- `none` for an empty key; otherwise the value, when the key is there. -/
def treapGet (t : Tree) (key : List UInt8) : Option (Option (List UInt8)) :=
  if key = [] then none else some ((treapFind t.root key).map Entry.value)

/-- The nodes an ascending scan has on its stack from `first` on, in the order it
takes them: a node below the bound is left out together with its left side. -/
def scanFrom (first : List UInt8) : Nodes → List Entry
  | nil => []
  | node left entry right =>
    if first = [] ∨ treapKeyCmp entry.key first ≠ .lt then
      scanFrom first left ++ entry :: right.entries
    else scanFrom first right

/-- The ascending scan stops at the first key at or above `last`. -/
def treapScan (t : Tree) (first last : List UInt8) : List Entry :=
  (scanFrom first t.root).takeWhile
    (fun entry => last = [] || treapKeyCmp entry.key last == .lt)

/-- A working copy shares the root and has no captured view. -/
def treapFork (t : Tree) : Tree := { t with snap := nil }

def treapCommit (copy t : Tree) : Tree :=
  { t with root := copy.root, count := copy.count, counted := copy.counted }

def treapCapture (t : Tree) : Tree := { t with snap := t.root }

def treapSaveFinish (t : Tree) : Tree := { t with snap := nil }

end Kynovo.Store.Treap
