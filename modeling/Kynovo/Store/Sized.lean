import Kynovo.Store.Order
import Kynovo.Store.Stream

/-! Order statistics. Every node stores the number of nodes below it; an update
copies the path it walks and recomputes the sizes of the copies from the deepest
one up, reading the sizes its children store. Ranks and positions are then found
by adding stored sizes, ranges by walking with an explicit stack. -/
namespace Kynovo.Store.Sized
open Kynovo.Store.Treap (Entry Nodes treapKeyCmp treapPriorityCmp treapNodeInit)
open Kynovo.Store.Order

/-- Nodes as they are stored: each with the size of its subtree. Sizes are counts
of nodes in memory, far below the 64 bits of their field. -/
inductive SizedNodes where
  | nil
  | node (size : Nat) (left : SizedNodes) (entry : Entry) (right : SizedNodes)
deriving DecidableEq, Repr

open SizedNodes

/-- The stored size; an absent child counts nothing. -/
def storedSize : SizedNodes → Nat
  | nil => 0
  | node size _ _ _ => size

/-- The tree without its sizes. -/
def plain : SizedNodes → Nodes
  | nil => .nil
  | node _ left entry right => .node (plain left) entry (plain right)

theorem plain_node (size : Nat) (left : SizedNodes) (entry : Entry) (right : SizedNodes) :
    plain (node size left entry right) = .node (plain left) entry (plain right) := rfl

/-- Every stored size is the one its children's sizes give. -/
def Counted : SizedNodes → Prop
  | nil => True
  | node size left _ right =>
    size = 1 + storedSize left + storedSize right ∧ Counted left ∧ Counted right

/-- A copied node gets its size once its children have theirs. -/
def treapNodeFixSize (left : SizedNodes) (entry : Entry) (right : SizedNodes) : SizedNodes :=
  node (1 + storedSize left + storedSize right) left entry right

def treapSplit (key : List UInt8) : SizedNodes → SizedNodes × SizedNodes
  | nil => (nil, nil)
  | node _ left entry right =>
    if treapKeyCmp key entry.key ≠ .gt then
      let (l, r) := treapSplit key left
      (l, treapNodeFixSize r entry right)
    else
      let (l, r) := treapSplit key right
      (treapNodeFixSize left entry l, r)

/-- The right-hand descent of a merge, as in the tree without sizes. -/
def mergeUnder (left : SizedNodes) (top : Entry) (whole : SizedNodes) (below : SizedNodes → SizedNodes) :
    SizedNodes → SizedNodes
  | nil => whole
  | node size rl re rr =>
    if treapPriorityCmp top re = .gt then treapNodeFixSize left top (below (node size rl re rr))
    else treapNodeFixSize (mergeUnder left top whole below rl) re rr

def treapMerge : SizedNodes → SizedNodes → SizedNodes
  | nil => fun right => right
  | node size left entry right =>
    mergeUnder left entry (node size left entry right) (fun other => treapMerge right other)

def treapRemoveMin : SizedNodes → SizedNodes
  | nil => nil
  | node _ nil _ right => right
  | node _ (node size ll le lr) entry right =>
    treapNodeFixSize (treapRemoveMin (node size ll le lr)) entry right

def leftmost : SizedNodes → Option Entry
  | nil => none
  | node _ nil entry _ => some entry
  | node _ (node size ll le lr) _ _ => leftmost (node size ll le lr)

def holdsAtMin (tree : SizedNodes) (key : List UInt8) : Bool :=
  (leftmost tree).any (fun entry => treapKeyCmp entry.key key == .eq)

def withoutMin (tree : SizedNodes) (key : List UInt8) : SizedNodes :=
  if holdsAtMin tree key then treapRemoveMin tree else tree

/-! ## Sizes and shapes of the results -/

theorem counted_fixSize {left right : SizedNodes} {entry : Entry} (lower : Counted left)
    (upper : Counted right) : Counted (treapNodeFixSize left entry right) :=
  ⟨rfl, lower, upper⟩

theorem treapSplit_plain (key : List UInt8) (tree : SizedNodes) :
    plain (treapSplit key tree).1 = (Treap.treapSplit key (plain tree)).1 ∧
      plain (treapSplit key tree).2 = (Treap.treapSplit key (plain tree)).2 := by
  induction tree with
  | nil => exact ⟨rfl, rfl⟩
  | node size left entry right ihl ihr =>
    rw [plain_node]
    unfold treapSplit Treap.treapSplit
    by_cases low : treapKeyCmp key entry.key ≠ .gt
    · rw [if_pos low, if_pos low]
      exact ⟨ihl.1, by simp only [treapNodeFixSize, plain, ihl.2]⟩
    · rw [if_neg low, if_neg low]
      exact ⟨by simp only [treapNodeFixSize, plain, ihr.1], ihr.2⟩

theorem treapSplit_counted {key : List UInt8} {tree : SizedNodes} (counted : Counted tree) :
    Counted (treapSplit key tree).1 ∧ Counted (treapSplit key tree).2 := by
  induction tree with
  | nil => exact ⟨trivial, trivial⟩
  | node size left entry right ihl ihr =>
    obtain ⟨-, lower, upper⟩ := counted
    unfold treapSplit
    by_cases low : treapKeyCmp key entry.key ≠ .gt
    · rw [if_pos low]
      exact ⟨(ihl lower).1, counted_fixSize (ihl lower).2 upper⟩
    · rw [if_neg low]
      exact ⟨counted_fixSize lower (ihr upper).1, (ihr upper).2⟩

theorem mergeUnder_plain {left whole : SizedNodes} {top : Entry} {below : SizedNodes → SizedNodes}
    {lower : Nodes → Nodes} (same : ∀ tree, plain (below tree) = lower (plain tree)) (tree : SizedNodes) :
    plain (mergeUnder left top whole below tree) =
      Treap.mergeUnder (plain left) top (plain whole) lower (plain tree) := by
  induction tree with
  | nil => rfl
  | node size rl re rr ihl _ =>
    rw [plain_node]
    unfold mergeUnder Treap.mergeUnder
    by_cases higher : treapPriorityCmp top re = .gt
    · rw [if_pos higher, if_pos higher]
      simp only [treapNodeFixSize, plain, same]
    · rw [if_neg higher, if_neg higher]
      simp only [treapNodeFixSize, plain, ihl]

theorem treapMerge_plain (left right : SizedNodes) :
    plain (treapMerge left right) = Treap.treapMerge (plain left) (plain right) := by
  induction left generalizing right with
  | nil => rfl
  | node size ll le lr _ ihr => exact mergeUnder_plain ihr right

theorem mergeUnder_counted {left whole : SizedNodes} {top : Entry} {below : SizedNodes → SizedNodes} {tree : SizedNodes}
    (lower : Counted left) (all : Counted whole) (joins : ∀ tree, Counted tree → Counted (below tree))
    (counted : Counted tree) : Counted (mergeUnder left top whole below tree) := by
  induction tree with
  | nil => exact all
  | node size rl re rr ihl _ =>
    unfold mergeUnder
    by_cases higher : treapPriorityCmp top re = .gt
    · rw [if_pos higher]
      exact counted_fixSize lower (joins _ counted)
    · rw [if_neg higher]
      exact counted_fixSize (ihl counted.2.1) counted.2.2

theorem treapMerge_counted {left right : SizedNodes} (lower : Counted left) (upper : Counted right) :
    Counted (treapMerge left right) := by
  induction left generalizing right with
  | nil => exact upper
  | node size ll le lr _ ihr =>
    exact mergeUnder_counted lower.2.1 lower (fun tree counted => ihr lower.2.2 counted) upper

theorem treapRemoveMin_plain (tree : SizedNodes) :
    plain (treapRemoveMin tree) = Treap.treapRemoveMin (plain tree) := by
  fun_induction treapRemoveMin tree with
  | case1 => rfl
  | case2 size entry right => rfl
  | case3 size' size ll le lr entry right ih =>
    simp only [treapNodeFixSize, plain, ih, Treap.treapRemoveMin]

theorem treapRemoveMin_counted {tree : SizedNodes} (counted : Counted tree) :
    Counted (treapRemoveMin tree) := by
  fun_induction treapRemoveMin tree with
  | case1 => exact counted
  | case2 size entry right => exact counted.2.2
  | case3 size' size ll le lr entry right ih =>
    exact counted_fixSize (ih counted.2.1) counted.2.2

theorem leftmost_plain (tree : SizedNodes) : leftmost tree = Treap.leftmost (plain tree) := by
  fun_induction leftmost tree with
  | case1 => rfl
  | case2 size entry right => rfl
  | case3 size' size ll le lr entry right ih => exact ih

theorem holdsAtMin_plain (tree : SizedNodes) (key : List UInt8) :
    holdsAtMin tree key = Treap.holdsAtMin (plain tree) key := by
  rw [holdsAtMin, Treap.holdsAtMin, leftmost_plain]

theorem withoutMin_plain (tree : SizedNodes) (key : List UInt8) :
    plain (withoutMin tree key) = Treap.withoutMin (plain tree) key := by
  unfold withoutMin Treap.withoutMin
  rw [holdsAtMin_plain]
  split
  · exact treapRemoveMin_plain tree
  · rfl

theorem withoutMin_counted {tree : SizedNodes} {key : List UInt8} (counted : Counted tree) :
    Counted (withoutMin tree key) := by
  unfold withoutMin
  split
  · exact treapRemoveMin_counted counted
  · exact counted

/-- The stored size of a counted tree is the number of its entries. -/
theorem storedSize_eq {tree : SizedNodes} (counted : Counted tree) :
    storedSize tree = (plain tree).entries.length := by
  induction tree with
  | nil => rfl
  | node size left entry right ihl ihr =>
    obtain ⟨here, lower, upper⟩ := counted
    have below := ihl lower
    have above := ihr upper
    rw [plain_node, Nodes.entries, List.length_append, List.length_cons]
    change size = _
    omega

/-! ## The treap -/

/-- A treap with its node count. A captured view does not change what the live tree
answers, so it is left out here. -/
structure SizedTree where
  root : SizedNodes
  count : Nat
  seed : UInt64
deriving DecidableEq, Repr

def entriesOf (t : SizedTree) : List Entry := (plain t.root).entries

def treapCreate (seed : UInt64) : SizedTree := ⟨nil, 0, seed⟩

def treapSet (t : SizedTree) (key value : List UInt8) : Option SizedTree :=
  (treapNodeInit t.seed key value).map (fun entry =>
    let (l, r) := treapSplit key t.root
    let mid := treapMerge (node 1 nil entry nil) (withoutMin r key)
    { t with
      root := treapMerge l mid
      count := if holdsAtMin r key then t.count else t.count + 1 })

def treapDelete (t : SizedTree) (key : List UInt8) : Option (SizedTree × Bool) :=
  if key = [] then none
  else
    let (l, r) := treapSplit key t.root
    if holdsAtMin r key then
      some ({ t with root := treapMerge l (treapRemoveMin r), count := t.count - 1 }, true)
    else some (t, false)

/-- A node on an explicit stack, taken apart. -/
abbrev Frame := SizedNodes × Entry × SizedNodes

/-- A child goes on the stack when it is there. -/
def pushChild : SizedNodes → List Frame → List Frame
  | nil, stack => stack
  | node _ left entry right, stack => (left, entry, right) :: stack

def nodeCount : SizedNodes → Nat
  | nil => 0
  | node _ left _ right => 1 + nodeCount left + nodeCount right

/-- The nodes still below a stack. -/
def below (stack : List Frame) : Nat :=
  (stack.map (fun (left, _, right) => 1 + nodeCount left + nodeCount right)).sum

theorem below_cons (left : SizedNodes) (entry : Entry) (right : SizedNodes) (stack : List Frame) :
    below ((left, entry, right) :: stack) = 1 + nodeCount left + nodeCount right + below stack := rfl

theorem below_pushChild (child : SizedNodes) (stack : List Frame) :
    below (pushChild child stack) = nodeCount child + below stack := by
  cases child with
  | nil => simp [pushChild, nodeCount]
  | node size left entry right => rfl

/-- Retires a whole subtree: every node on the stack is counted and followed by its
left, then its right side. -/
def treapOpPushFreeTree : List Frame → Nat → Nat
  | [], removed => removed
  | (left, _, right) :: stack, removed =>
    treapOpPushFreeTree (pushChild left (pushChild right stack)) (removed + 1)
termination_by stack => below stack
decreasing_by
  rw [below_pushChild, below_pushChild, below_cons]
  omega

/-- The parts left of, inside and right of the range; an empty bound is open. -/
def rangeParts (root : SizedNodes) (first last : List UInt8) :
    SizedNodes × SizedNodes × SizedNodes :=
  let (l, m) := if first = [] then (nil, root) else treapSplit first root
  let (m, r) := if last = [] then (m, nil) else treapSplit last m
  (l, m, r)

def treapDeleteRange (t : SizedTree) (first last : List UInt8) : SizedTree × Nat :=
  let (l, m, r) := rangeParts t.root first last
  let removed := treapOpPushFreeTree (pushChild m []) 0
  ({ t with root := treapMerge l r, count := t.count - removed }, removed)

/-- A working copy shares the root; its commit moves its root and count over. -/
def treapFork (t : SizedTree) : SizedTree := t

def treapCommit (copy t : SizedTree) : SizedTree :=
  { t with root := copy.root, count := copy.count }

/-- The right spine of a load, the deepest node first, each with its left side. A
node gets its size when it leaves the spine, after the node to its right. -/
abbrev SizedSpine := List (SizedNodes × Entry)

def popLower (entry : Entry) : SizedSpine → SizedNodes → SizedSpine × SizedNodes
  | [], last => ([], last)
  | (left, top) :: spine, last =>
    if treapPriorityCmp top entry = .lt then
      popLower entry spine (treapNodeFixSize left top last)
    else ((left, top) :: spine, last)

def pushEntry (spine : SizedSpine) (entry : Entry) : SizedSpine :=
  let (rest, last) := popLower entry spine nil
  (last, entry) :: rest

def closeSpine : SizedSpine → SizedNodes → SizedNodes
  | [], right => right
  | (left, top) :: spine, right => closeSpine spine (treapNodeFixSize left top right)

/-- The tree is replaced by the records of a serialized stream. -/
def treapLoad (t : SizedTree) (records : List (List UInt8 × List UInt8)) : Option SizedTree :=
  (records.mapM (fun (key, value) => treapNodeInit t.seed key value)).map (fun (loaded : List Entry) =>
    { t with root := closeSpine (loaded.foldl pushEntry []) nil, count := loaded.length })

/-! ## Order statistics -/

/-- The descent of a rank query. -/
def rankUnder (key : List UInt8) : SizedNodes → Nat → Nat
  | nil, rank => rank
  | node _ left entry right, rank =>
    if treapKeyCmp entry.key key = .lt then rankUnder key right (rank + (storedSize left + 1))
    else rankUnder key left rank

def treapRank (t : SizedTree) (key : List UInt8) : Nat :=
  if key = [] then 0 else rankUnder key t.root 0

def treapCountRange (t : SizedTree) (first last : List UInt8) : Nat :=
  let rb := if first = [] then 0 else treapRank t first
  let re := if last = [] then t.count else treapRank t last
  if rb ≤ re then re - rb else 0

def selectUnder : SizedNodes → Nat → Option Entry
  | nil, _ => none
  | node _ left entry right, index =>
    if index < storedSize left then selectUnder left index
    else if index = storedSize left then some entry
    else selectUnder right (index - (storedSize left + 1))

def treapSelect (t : SizedTree) (index : Nat) : Option Entry := selectUnder t.root index

/-- The last node the descent found at or above `first`. -/
def firstFrom (first : List UInt8) : SizedNodes → Option Entry → Option Entry
  | nil, best => best
  | node _ left entry right, best =>
    if first ≠ [] ∧ treapKeyCmp entry.key first = .lt then firstFrom first right best
    else firstFrom first left (some entry)

def treapMinRange (t : SizedTree) (first last : List UInt8) : Option Entry :=
  match firstFrom first t.root none with
  | none => none
  | some best => if last ≠ [] ∧ treapKeyCmp best.key last ≠ .lt then none else some best

/-- The last node the descent found below `last`. -/
def lastBefore (last : List UInt8) : SizedNodes → Option Entry → Option Entry
  | nil, best => best
  | node _ left entry right, best =>
    if last ≠ [] ∧ treapKeyCmp entry.key last ≠ .lt then lastBefore last left best
    else lastBefore last right (some entry)

def treapMaxRange (t : SizedTree) (first last : List UInt8) : Option Entry :=
  match lastBefore last t.root none with
  | none => none
  | some best => if first ≠ [] ∧ treapKeyCmp best.key first = .lt then none else some best

/-! ## Scans -/

section Scan

variable {σ : Type} (fn : σ → Entry → σ × Bool)

/-- The nodes from `first` on that wait on the stack, the smallest on top. -/
def seekFirst (first : List UInt8) : SizedNodes → List Frame → List Frame
  | nil, stack => stack
  | node _ left entry right, stack =>
    if first = [] ∨ treapKeyCmp entry.key first ≠ .lt then
      seekFirst first left ((left, entry, right) :: stack)
    else seekFirst first right stack

def descendLeft : SizedNodes → List Frame → List Frame
  | nil, stack => stack
  | node _ left entry right, stack => descendLeft left ((left, entry, right) :: stack)

/-- The nodes below `last` that wait on the stack, the largest on top. -/
def seekLast (last : List UInt8) : SizedNodes → List Frame → List Frame
  | nil, stack => stack
  | node _ left entry right, stack =>
    if last = [] ∨ treapKeyCmp entry.key last = .lt then
      seekLast last right ((left, entry, right) :: stack)
    else seekLast last left stack

def descendRight : SizedNodes → List Frame → List Frame
  | nil, stack => stack
  | node _ left entry right, stack => descendRight right ((left, entry, right) :: stack)

/-- The nodes an ascending walk has yet to visit. -/
def aheadUp (stack : List Frame) : Nat :=
  (stack.map (fun (_, _, right) => 1 + nodeCount right)).sum

def aheadDown (stack : List Frame) : Nat :=
  (stack.map (fun (left, _, _) => 1 + nodeCount left)).sum

theorem aheadUp_descendLeft (tree : SizedNodes) (stack : List Frame) :
    aheadUp (descendLeft tree stack) = nodeCount tree + aheadUp stack := by
  induction tree generalizing stack with
  | nil => simp [descendLeft, nodeCount]
  | node size left entry right ihl _ =>
    rw [descendLeft, ihl]
    simp only [aheadUp, nodeCount, List.map_cons, List.sum_cons]
    omega

theorem aheadDown_descendRight (tree : SizedNodes) (stack : List Frame) :
    aheadDown (descendRight tree stack) = nodeCount tree + aheadDown stack := by
  induction tree generalizing stack with
  | nil => simp [descendRight, nodeCount]
  | node size left entry right _ ihr =>
    rw [descendRight, ihr]
    simp only [aheadDown, nodeCount, List.map_cons, List.sum_cons]
    omega

/-- The ascending walk: it ends at the upper bound or when the visitor says so. -/
def scanUp (last : List UInt8) : List Frame → σ → Nat → σ × Nat
  | [], state, count => (state, count)
  | (_, entry, right) :: stack, state, count =>
    if last ≠ [] ∧ treapKeyCmp entry.key last ≠ .lt then (state, count)
    else
      let (state, stop) := fn state entry
      if stop then (state, count + 1)
      else scanUp last (descendLeft right stack) state (count + 1)
termination_by stack => aheadUp stack
decreasing_by
  rw [aheadUp_descendLeft]
  simp only [aheadUp, List.map_cons, List.sum_cons]
  omega

def scanDown (first : List UInt8) : List Frame → σ → Nat → σ × Nat
  | [], state, count => (state, count)
  | (left, entry, _) :: stack, state, count =>
    if first ≠ [] ∧ treapKeyCmp entry.key first = .lt then (state, count)
    else
      let (state, stop) := fn state entry
      if stop then (state, count + 1)
      else scanDown first (descendRight left stack) state (count + 1)
termination_by stack => aheadDown stack
decreasing_by
  rw [aheadDown_descendRight]
  simp only [aheadDown, List.map_cons, List.sum_cons]
  omega

inductive Direction where
  | asc
  | desc
deriving DecidableEq, Repr

/-- Visits a range in one direction; the visitor's state and the number of visits. -/
def treapScan (t : SizedTree) (first last : List UInt8) (direction : Direction) (state : σ) :
    σ × Nat :=
  match direction with
  | .desc => scanDown fn first (seekLast last t.root []) state 0
  | .asc => scanUp fn last (seekFirst first t.root []) state 0

end Scan

end Kynovo.Store.Sized
