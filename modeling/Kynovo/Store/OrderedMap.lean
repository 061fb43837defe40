import Mathlib.Data.Finset.Card
import Kynovo.Store.Clones
import Kynovo.Store.Heap

/-! The tree as an ordered map. A tree is worked on together with the fork that may be open on it
and the view that may be captured of it; updates go to the open fork. What the map holds is said
by the history of its updates alone, and the tree answers by that history after every run. -/
namespace Kynovo.Store.OrderedMap
open Kynovo.Store.Treap (Entry Nodes treapKeyCmp treapNodeInit treapNodeBytes)
open Kynovo.Store.Order
open Kynovo.Store.Sized
open Kynovo.Store.Sized.SizedNodes
open Kynovo.Store.RangeProofs
open Kynovo.Store.Heap

/-! ## A tree, its fork and its captured view -/

/-- The root and the count that a capture keeps. -/
structure View where
  root : SizedNodes
  count : Nat
deriving DecidableEq, Repr

structure Session where
  live : SizedTree
  fork : Option SizedTree
  snap : View
deriving DecidableEq, Repr

inductive Update where
  | set (key value : List UInt8)
  | delete (key : List UInt8)
  | deleteRange (first last : List UInt8)
deriving DecidableEq, Repr

/-- What is done without ending a fork. -/
inductive Work where
  | update (update : Update)
  | capture
  | saveFinish
deriving DecidableEq, Repr

inductive Call where
  | work (work : Work)
  | fork
  | commit
  | abort
deriving DecidableEq, Repr

/-- A refused update leaves the tree as it is. -/
def applyUpdate (t : SizedTree) : Update → SizedTree
  | .set key value => (treapSet t key value).getD t
  | .delete key => ((treapDelete t key).map Prod.fst).getD t
  | .deleteRange first last => (treapDeleteRange t first last).1

/-- A capture keeps the live root; finishing a save drops the view. Both are done to the tree
itself, an update to the open fork. -/
def doWork (s : Session) : Work → Session
  | .update update =>
    match s.fork with
    | none => { s with live := applyUpdate s.live update }
    | some copy => { s with fork := some (applyUpdate copy update) }
  | .capture => { s with snap := ⟨s.live.root, s.live.count⟩ }
  | .saveFinish => { s with snap := ⟨nil, 0⟩ }

/-- A fork of a fork is refused. -/
def step (s : Session) : Call → Session
  | .work work => doWork s work
  | .fork =>
    match s.fork with
    | none => { s with fork := some (treapFork s.live) }
    | some _ => s
  | .commit =>
    match s.fork with
    | none => s
    | some copy => { s with live := treapCommit copy s.live, fork := none }
  | .abort => { s with fork := none }

def start (seed : UInt64) : Session := ⟨treapCreate seed, none, ⟨nil, 0⟩⟩

def run (seed : UInt64) (calls : List Call) : Session := calls.foldl step (start seed)

/-- The search for a key goes left of a larger key and right of a smaller one. -/
def treapFind : SizedNodes → List UInt8 → Option Entry
  | nil, _ => none
  | node _ left entry right, key =>
    match treapKeyCmp key entry.key with
    | .eq => some entry
    | .lt => treapFind left key
    | .gt => treapFind right key

/-- `none` for an empty key; otherwise the value, when the key is there. -/
def treapGet (t : SizedTree) (key : List UInt8) : Option (Option (List UInt8)) :=
  if key = [] then none else some ((treapFind t.root key).map Entry.value)

def treapCount (t : SizedTree) : Nat := t.count

/-! ## The history of the updates -/

/-- The updates of the map and of its open fork, the latest one first. -/
structure History where
  live : List Update
  fork : Option (List Update)

def recordWork (h : History) : Work → History
  | .update update =>
    match h.fork with
    | none => { h with live := update :: h.live }
    | some updates => { h with fork := some (update :: updates) }
  | .capture => h
  | .saveFinish => h

/-- A fork begins with the updates so far; a commit puts its updates in their place. -/
def record (h : History) : Call → History
  | .work work => recordWork h work
  | .fork =>
    match h.fork with
    | none => { h with fork := some h.live }
    | some _ => h
  | .commit =>
    match h.fork with
    | none => h
    | some updates => ⟨updates, none⟩
  | .abort => { h with fork := none }

def history (calls : List Call) : History := calls.foldl record ⟨[], none⟩

/-- A key and a value that a node can be made for. -/
def Accepted (key value : List UInt8) : Prop :=
  key ≠ [] ∧ treapNodeBytes key.length ≤ 0xffffffff ∧ value.length ≤ 0xffffffff

instance (key value : List UInt8) : Decidable (Accepted key value) :=
  inferInstanceAs (Decidable (_ ∧ _))

/-- A key of the half-open range; an empty bound is open. -/
def Inside (first last key : List UInt8) : Prop := (first = [] ∨ first ≤ key) ∧ (last = [] ∨ key < last)

instance (first last key : List UInt8) : Decidable (Inside first last key) :=
  inferInstanceAs (Decidable (_ ∧ _))

/-- The value of the last set of the key that no delete follows. -/
def lastSet (key : List UInt8) : List Update → Option (List UInt8)
  | [] => none
  | .set name value :: earlier => if name = key ∧ Accepted name value then some value else lastSet key earlier
  | .delete name :: earlier => if name = key then none else lastSet key earlier
  | .deleteRange first last :: earlier => if Inside first last key then none else lastSet key earlier

/-! ## What a tree is at all times -/

/-- Left of a node every key is below the node's key in bytewise order, right of it above. -/
def SearchTree : SizedNodes → Prop
  | nil => True
  | node _ left entry right => (∀ low ∈ (plain left).entries, low.key < entry.key) ∧
      (∀ high ∈ (plain right).entries, entry.key < high.key) ∧ SearchTree left ∧ SearchTree right

/-- Every stored size is the number of nodes of its subtree. -/
def ExactSizes : SizedNodes → Prop
  | nil => True
  | node size left entry right =>
    size = nodeCount (node size left entry right) ∧ ExactSizes left ∧ ExactSizes right

/-- The tree stands for the map that these updates leave. -/
structure Represents (t : SizedTree) (updates : List Update) : Prop where
  search : SearchTree t.root
  heap : Heaped (plain t.root)
  sizes : ExactSizes t.root
  count : ∃ live : Finset (List UInt8), (∀ key, key ∈ live ↔ lastSet key updates ≠ none) ∧
    treapCount t = live.card
  get : ∀ key, treapGet t key = if key = [] then none else some (lastSet key updates)

/-- The invariant that updates carry. -/
structure Kept (t : SizedTree) (updates : List Update) : Prop where
  valid : Valid t
  heap : Heaped (plain t.root)
  find : ∀ key, (Treap.treapFind (plain t.root) key).map Entry.value = lastSet key updates

theorem searchTree_of_ordered {tree : SizedNodes} (ordered : Ordered (plain tree)) : SearchTree tree := by
  induction tree with
  | nil => trivial
  | node size left entry right ihl ihr =>
    obtain ⟨lower, upper, below, above⟩ := ordered_node_iff.mp ordered
    exact ⟨below, above, ihl lower, ihr upper⟩

theorem storedSize_nodeCount {tree : SizedNodes} (counted : Counted tree) : storedSize tree = nodeCount tree := by
  rw [storedSize_eq counted, nodeCount_eq]

theorem exactSizes_of_counted {tree : SizedNodes} (counted : Counted tree) : ExactSizes tree := by
  induction tree with
  | nil => trivial
  | node size left entry right ihl ihr =>
    exact ⟨storedSize_nodeCount counted, ihl counted.2.1, ihr counted.2.2⟩

theorem treapFind_plain (tree : SizedNodes) (key : List UInt8) :
    treapFind tree key = Treap.treapFind (plain tree) key := by
  induction tree with
  | nil => rfl
  | node size left entry right ihl ihr =>
    rw [plain_node]
    unfold treapFind Treap.treapFind
    cases treapKeyCmp key entry.key with
    | eq => rfl
    | lt => exact ihl
    | gt => exact ihr

/-- The keys of an ordered tree are those that a search finds. -/
theorem mem_keys_iff {tree : Nodes} (ordered : Ordered tree) (key : List UInt8) :
    key ∈ tree.entries.map Entry.key ↔ Treap.treapFind tree key ≠ none := by
  rw [treapFind_eq_find ordered, ne_eq, List.find?_eq_none, List.mem_map]
  constructor
  · rintro ⟨entry, inside, named⟩ missing
    exact missing entry inside (decide_eq_true named)
  · intro found
    push Not at found
    obtain ⟨entry, inside, named⟩ := found
    exact ⟨entry, inside, of_decide_eq_true named⟩

theorem Kept.represents {t : SizedTree} {updates : List Update} (kept : Kept t updates) :
    Represents t updates where
  search := searchTree_of_ordered kept.valid.ordered
  heap := kept.heap
  sizes := exactSizes_of_counted kept.valid.counted
  count := by
    have differ : ((entriesOf t).map Entry.key).Nodup := by
      refine List.pairwise_map.mpr (kept.valid.ascending.imp ?_)
      intro first second less same
      exact List.lt_irrefl _ (same ▸ less)
    refine ⟨((entriesOf t).map Entry.key).toFinset, fun key => ?_, ?_⟩
    · rw [List.mem_toFinset, ← kept.find key, ne_eq, Option.map_eq_none_iff]
      exact mem_keys_iff kept.valid.ordered key
    · rw [List.toFinset_card_of_nodup differ, List.length_map]
      exact kept.valid.count
  get key := by
    unfold treapGet
    rw [treapFind_plain, kept.find key]

/-! ## Updates -/

theorem treapNodeInit_eq {seed : UInt64} {key value : List UInt8} {entry : Entry}
    (made : treapNodeInit seed key value = some entry) : entry.value = value ∧ Accepted key value := by
  unfold treapNodeInit at made
  split at made
  · rename_i fits
    cases made
    exact ⟨rfl, fits⟩
  · cases made

theorem treapNodeInit_none {seed : UInt64} {key value : List UInt8}
    (refused : treapNodeInit seed key value = none) : ¬Accepted key value := by
  intro accepted
  unfold treapNodeInit at refused
  split at refused
  · cases refused
  · rename_i misfit
    exact misfit accepted

theorem heaped_set {t after : SizedTree} {key value : List UInt8} (valid : Valid t)
    (heap : Heaped (plain t.root)) (done : treapSet t key value = some after) : Heaped (plain after.root) := by
  obtain ⟨entry, -, -, shape⟩ := treapSet_plain done
  rw [shape]
  exact heaped_setRoot valid.ordered heap entry

theorem heaped_delete {t after : SizedTree} {key : List UInt8} {found : Bool} (valid : Valid t)
    (heap : Heaped (plain t.root)) (done : treapDelete t key = some (after, found)) :
    Heaped (plain after.root) := by
  rcases treapDelete_plain done with ⟨-, -, -, -, shape⟩ | ⟨-, rfl⟩
  · rw [shape]
    exact heaped_removed valid.ordered heap key
  · exact heap

theorem heaped_deleteRange {t : SizedTree} (valid : Valid t) (heap : Heaped (plain t.root))
    (first last : List UInt8) : Heaped (plain (treapDeleteRange t first last).1.root) := by
  obtain ⟨left, -, right⟩ := rangeParts_plain t.root first last
  unfold treapDeleteRange
  dsimp only
  rw [treapMerge_plain, left, right]
  exact heaped_withoutRange valid.ordered heap first last

theorem kept_set {t : SizedTree} {updates : List Update} (kept : Kept t updates) (key value : List UInt8) :
    Kept ((treapSet t key value).getD t) (.set key value :: updates) := by
  cases done : treapSet t key value with
  | none =>
    have refused : ¬Accepted key value :=
      treapNodeInit_none (Option.map_eq_none_iff.mp done)
    refine ⟨kept.valid, kept.heap, fun other => ?_⟩
    rw [lastSet, if_neg (fun named => refused named.2)]
    exact kept.find other
  | some after =>
    obtain ⟨entry, made, -, shape⟩ := treapSet_plain done
    have same : entry.key = key := treapNodeInit_key made
    obtain ⟨valued, accepted⟩ := treapNodeInit_eq made
    refine ⟨valid_set kept.valid done, heaped_set kept.valid kept.heap done, fun other => ?_⟩
    rw [Option.getD_some, shape, treapFind_setRoot kept.valid.ordered, same, lastSet]
    by_cases named : key = other
    · rw [if_pos named, if_pos ⟨named, accepted⟩, Option.map_some, valued]
    · rw [if_neg named, if_neg (fun both => named both.1)]
      exact kept.find other

/-- A key that is taken out is gone; every other key has what it had. -/
theorem treapFind_removed {root : Nodes} (ordered : Ordered root) {key : List UInt8}
    (holds : Treap.holdsAtMin (Treap.treapSplit key root).2 key = true) (other : List UInt8) :
    Treap.treapFind (Treap.treapMerge (Treap.treapSplit key root).1
        (Treap.treapRemoveMin (Treap.treapSplit key root).2)) other =
      if key = other then none else Treap.treapFind root other := by
  have kept : (Treap.treapMerge (Treap.treapSplit key root).1
      (Treap.treapRemoveMin (Treap.treapSplit key root).2)).entries =
        (around ordered key).front ++ (around ordered key).back := by
    rw [Treap.treapMerge_entries]
    simp only [around, Treap.withoutMin, holds, if_true]
  rw [treapFind_eq_find (ordered_removed ordered key holds), treapFind_eq_find ordered, kept,
    (around ordered key).whole, List.find?_append, List.find?_append, List.find?_append]
  by_cases same : key = other
  · have before : (around ordered key).front.find? (fun entry => decide (entry.key = other)) = none :=
      find_none_of_ne fun entry inside equal =>
        List.lt_irrefl _ (same ▸ equal ▸ (around ordered key).below entry inside)
    have behind : (around ordered key).back.find? (fun entry => decide (entry.key = other)) = none :=
      find_none_of_ne fun entry inside equal =>
        List.lt_irrefl _ (same ▸ equal ▸ (around ordered key).above entry inside)
    rw [before, behind, if_pos same]
    rfl
  · have unheld : (around ordered key).held.toList.find? (fun entry => decide (entry.key = other)) = none :=
      find_none_of_ne fun entry inside equal =>
        same (((around ordered key).named entry (Option.mem_toList.mp inside)).symm.trans equal)
    rw [unheld, if_neg same, Option.or_none]

/-- A key that is not at the split point is not in the tree. -/
theorem treapFind_missing {root : Nodes} (ordered : Ordered root) {key : List UInt8}
    (missing : Treap.holdsAtMin (Treap.treapSplit key root).2 key = false) :
    Treap.treapFind root key = none := by
  rw [(around ordered key).find ordered]
  simp only [around, missing, Bool.false_eq_true, if_false]

/-- No node has the empty key. -/
theorem treapFind_empty {root : Nodes} (ordered : Ordered root) : Treap.treapFind root [] = none := by
  rw [treapFind_eq_find ordered]
  exact find_none_of_ne fun entry _ => entry.keyed

theorem kept_delete {t : SizedTree} {updates : List Update} (kept : Kept t updates) (key : List UInt8) :
    Kept (((treapDelete t key).map Prod.fst).getD t) (.delete key :: updates) := by
  -- A key that is not there is not there after its delete either.
  have untouched (missing : Treap.treapFind (plain t.root) key = none) : Kept t (.delete key :: updates) := by
    refine ⟨kept.valid, kept.heap, fun other => ?_⟩
    rw [lastSet]
    by_cases named : key = other
    · rw [if_pos named, ← named, missing]
      rfl
    · rw [if_neg named]
      exact kept.find other
  cases done : treapDelete t key with
  | none =>
    apply untouched
    unfold treapDelete at done
    split at done
    · rename_i empty
      rw [empty]
      exact treapFind_empty kept.valid.ordered
    · dsimp only at done
      split at done <;> cases done
  | some result =>
    obtain ⟨after, found⟩ := result
    rcases treapDelete_plain done with ⟨holds, -, -, -, shape⟩ | ⟨missing, rfl⟩
    · refine ⟨valid_delete kept.valid done, heaped_delete kept.valid kept.heap done, fun other => ?_⟩
      change (Treap.treapFind (plain after.root) other).map _ = _
      rw [shape, treapFind_removed kept.valid.ordered holds, lastSet]
      by_cases named : key = other
      · rw [if_pos named, if_pos named, Option.map_none]
      · rw [if_neg named, if_neg named]
        exact kept.find other
    · exact untouched (treapFind_missing kept.valid.ordered missing)

theorem inRange_iff (first last : List UInt8) (entry : Entry) :
    inRange first last entry = true ↔ Inside first last entry.key := by
  unfold inRange atLeast isBelow Inside
  simp [← List.not_lt]

theorem kept_deleteRange {t : SizedTree} {updates : List Update} (kept : Kept t updates)
    (first last : List UInt8) : Kept (treapDeleteRange t first last).1 (.deleteRange first last :: updates) := by
  have valid := valid_deleteRange kept.valid first last
  obtain ⟨-, remaining⟩ := treapDeleteRange_spec kept.valid first last
  refine ⟨valid, heaped_deleteRange kept.valid kept.heap first last, fun key => ?_⟩
  have before := kept.find key
  rw [treapFind_eq_find kept.valid.ordered] at before
  unfold entriesOf at remaining
  rw [treapFind_eq_find valid.ordered, remaining, List.find?_filter, lastSet]
  by_cases within : Inside first last key
  · rw [if_pos within, Option.map_eq_none_iff, List.find?_eq_none]
    intro entry _ both
    have named := of_decide_eq_true both
    rw [decide_eq_true_eq, Bool.not_eq_true', Bool.eq_false_iff, ne_eq, inRange_iff] at named
    exact named.1 (named.2 ▸ within)
  · rw [if_neg within, ← before]
    congr 2
    funext entry
    by_cases named : entry.key = key
    · have outside : inRange first last entry = false := by
        rw [Bool.eq_false_iff, ne_eq, inRange_iff, named]
        exact within
      simp [named, outside]
    · simp [named]

theorem kept_update {t : SizedTree} {updates : List Update} (kept : Kept t updates) (update : Update) :
    Kept (applyUpdate t update) (update :: updates) := by
  cases update with
  | set key value => exact kept_set kept key value
  | delete key => exact kept_delete kept key
  | deleteRange first last => exact kept_deleteRange kept first last

/-! ## Runs -/

/-- The tree and its open fork are what their updates say. -/
structure Follows (s : Session) (h : History) : Prop where
  live : Kept s.live h.live
  fork : Option.Rel Kept s.fork h.fork

theorem follows_start (seed : UInt64) : Follows (start seed) ⟨[], none⟩ where
  live := ⟨⟨List.Pairwise.nil, trivial, rfl⟩, trivial, fun _ => rfl⟩
  fork := .none

theorem follows_work {s : Session} {h : History} (follows : Follows s h) (work : Work) :
    Follows (doWork s work) (recordWork h work) := by
  obtain ⟨live, fork⟩ := follows
  obtain ⟨tree, copy, snap⟩ := s
  obtain ⟨updates, forked⟩ := h
  cases work with
  | update update =>
    cases fork with
    | none => exact ⟨kept_update live update, .none⟩
    | some kept => exact ⟨live, .some (kept_update kept update)⟩
  | capture => exact ⟨live, fork⟩
  | saveFinish => exact ⟨live, fork⟩

theorem follows_step {s : Session} {h : History} (follows : Follows s h) (call : Call) :
    Follows (step s call) (record h call) := by
  obtain ⟨live, fork⟩ := follows
  obtain ⟨tree, copy, snap⟩ := s
  obtain ⟨updates, forked⟩ := h
  cases call with
  | work work => exact follows_work ⟨live, fork⟩ work
  | fork =>
    cases fork with
    | none => exact ⟨live, .some live⟩
    | some kept => exact ⟨live, .some kept⟩
  | commit =>
    cases fork with
    | none => exact ⟨live, .none⟩
    | some kept =>
      exact ⟨⟨⟨kept.valid.ordered, kept.valid.counted, kept.valid.count⟩, kept.heap, kept.find⟩, .none⟩
  | abort => exact ⟨live, .none⟩

theorem follows_calls {s : Session} {h : History} (follows : Follows s h) (calls : List Call) :
    Follows (calls.foldl step s) (calls.foldl record h) := by
  induction calls generalizing s h with
  | nil => exact follows
  | cons call calls ih => exact ih (follows_step follows call)

theorem rel_represents {copy : Option SizedTree} {updates : Option (List Update)}
    (kept : Option.Rel Kept copy updates) : Option.Rel Represents copy updates := by
  cases kept with
  | none => exact .none
  | some kept => exact .some kept.represents

theorem doWork_live {s : Session} {copy : SizedTree} (forked : s.fork = some copy) (work : Work) :
    (doWork s work).live = s.live ∧ ∃ after, (doWork s work).fork = some after := by
  cases work with
  | update update =>
    unfold doWork
    rw [forked]
    exact ⟨rfl, _, rfl⟩
  | capture => exact ⟨rfl, _, forked⟩
  | saveFinish => exact ⟨rfl, _, forked⟩

/-- While a fork is open the tree itself stays as it is. -/
theorem foldl_doWork_live {s : Session} {copy : SizedTree} (forked : s.fork = some copy) (work : List Work) :
    ((work.map Call.work).foldl step s).live = s.live := by
  induction work generalizing s copy with
  | nil => rfl
  | cons first work ih =>
    obtain ⟨same, after, still⟩ := doWork_live forked first
    exact (ih still).trans same

theorem aborted_live (s : Session) (work : List Work) :
    ((Call.fork :: work.map Call.work ++ [Call.abort]).foldl step s).live = s.live := by
  rw [List.cons_append, List.foldl_cons, List.foldl_append]
  have opened : (step s .fork).live = s.live ∧ ∃ copy, (step s .fork).fork = some copy := by
    unfold step
    cases forked : s.fork with
    | none => exact ⟨rfl, _, rfl⟩
    | some copy => exact ⟨rfl, _, forked⟩
  obtain ⟨same, copy, forked⟩ := opened
  exact (foldl_doWork_live forked work).trans same

/-- After every run the tree and its open fork stand for the maps that their updates leave, and a
fork that is aborted leaves the tree as it was. -/
theorem run_represents (seed : UInt64) (calls : List Call) :
    Represents (run seed calls).live (history calls).live ∧
    Option.Rel Represents (run seed calls).fork (history calls).fork ∧
    ∀ work : List Work, (run seed (calls ++ Call.fork :: work.map Call.work ++ [Call.abort])).live =
      (run seed calls).live := by
  have follows := follows_calls (follows_start seed) calls
  refine ⟨follows.live.represents, rel_represents follows.fork, fun work => ?_⟩
  unfold run
  rw [List.append_assoc, List.foldl_append]
  exact aborted_live _ work

end Kynovo.Store.OrderedMap
