import Kynovo.Store.Order

/-! The nodes in memory. A node is a cell that other cells point to; an operation clones the cells
on its path, chains the clones and the nodes it takes out of the tree, and writes into its clones
only. Reading or releasing a cell that is not allocated is a fault. -/
namespace Kynovo.Store.NodeHeap
open Kynovo.Store.Treap (Entry Nodes treapKeyCmp treapPriorityCmp)

structure Cell where
  entry : Entry
  left : Option Nat
  right : Option Nat

/-- Cells by address. Addresses are handed out in order and not used again. -/
structure Heap where
  cells : Nat → Option Cell
  next : Nat

/-- The chain of clones, the newest first, and the chain of retired nodes. -/
structure TreapOp where
  alloc : List Nat
  free : List Nat

/-- A new cell; it goes on the chain of clones. -/
def newNode (h : Heap) (op : TreapOp) (cell : Cell) : Heap × TreapOp :=
  ({ cells := fun id => if id = h.next then some cell else h.cells id, next := h.next + 1 },
    { op with alloc := h.next :: op.alloc })

/-- A clone keeps the pointers of its source, and the source is retired. -/
def treapCloneNode (h : Heap) (op : TreapOp) (id : Nat) (cell : Cell) : Heap × TreapOp :=
  newNode h { op with free := op.free ++ [id] } cell

/-- A write into one cell. -/
def Heap.edit (h : Heap) (id : Nat) (change : Cell → Cell) : Heap :=
  { h with cells := fun other => if other = id then (h.cells id).map change else h.cells other }

def Heap.setLeft (h : Heap) (id : Nat) (child : Option Nat) : Heap :=
  h.edit id (fun cell => { cell with left := child })

def Heap.setRight (h : Heap) (id : Nat) (child : Option Nat) : Heap :=
  h.edit id (fun cell => { cell with right := child })

/-- The descent of a split; the pointer that a clone leaves open is written when the rest below it
is known. -/
def treapSplit (key : List UInt8) : Nat → Heap → TreapOp → Option Nat →
    Option (Heap × TreapOp × Option Nat × Option Nat)
  | _, h, op, none => some (h, op, none, none)
  | 0, _, _, some _ => none
  | fuel + 1, h, op, some id => do
    let cell ← h.cells id
    let clone := h.next
    let (h, op) := treapCloneNode h op id cell
    if treapKeyCmp key cell.entry.key ≠ .gt then
      let (h, op, l, r) ← treapSplit key fuel h op cell.left
      return (h.setLeft clone r, op, l, some clone)
    else
      let (h, op, l, r) ← treapSplit key fuel h op cell.right
      return (h.setRight clone l, op, some clone, r)

def treapMerge : Nat → Heap → TreapOp → Option Nat → Option Nat → Option (Heap × TreapOp × Option Nat)
  | _, h, op, none, right => some (h, op, right)
  | _, h, op, some a, none => some (h, op, some a)
  | 0, _, _, some _, some _ => none
  | fuel + 1, h, op, some a, some b => do
    let low ← h.cells a
    let high ← h.cells b
    let clone := h.next
    if treapPriorityCmp low.entry high.entry = .gt then
      let (h, op) := treapCloneNode h op a low
      let (h, op, merged) ← treapMerge fuel h op low.right (some b)
      return (h.setRight clone merged, op, some clone)
    else
      let (h, op) := treapCloneNode h op b high
      let (h, op, merged) ← treapMerge fuel h op (some a) high.left
      return (h.setLeft clone merged, op, some clone)

/-- The tree without its smallest node, and that node. -/
def treapRemoveMin : Nat → Heap → TreapOp → Option Nat → Option (Heap × TreapOp × Option Nat × Option Nat)
  | _, h, op, none => some (h, op, none, none)
  | 0, _, _, some _ => none
  | fuel + 1, h, op, some id => do
    let cell ← h.cells id
    if cell.left = none then return (h, op, cell.right, some id)
    else
      let clone := h.next
      let (h, op) := treapCloneNode h op id cell
      let (h, op, rest, smallest) ← treapRemoveMin fuel h op cell.left
      return (h.setLeft clone rest, op, some clone, smallest)

def leftmost : Nat → Heap → Option Nat → Option (Option Entry)
  | _, _, none => some none
  | 0, _, some _ => none
  | fuel + 1, h, some id => do
    let cell ← h.cells id
    if cell.left = none then return some cell.entry
    else leftmost fuel h cell.left

/-- The nodes of a subtree in the order in which they are retired: a node before its left and its
right side. -/
def pushFreeTree : Nat → Heap → Option Nat → Option (List Nat)
  | _, _, none => some []
  | 0, _, some _ => none
  | fuel + 1, h, some id => do
    let cell ← h.cells id
    let left ← pushFreeTree fuel h cell.left
    let right ← pushFreeTree fuel h cell.right
    return id :: left ++ right

/-- The entries a save writes. -/
def savedEntries : Nat → Heap → Option Nat → Option (List Entry)
  | _, _, none => some []
  | 0, _, some _ => none
  | fuel + 1, h, some id => do
    let cell ← h.cells id
    let left ← savedEntries fuel h cell.left
    let right ← savedEntries fuel h cell.right
    return left ++ cell.entry :: right

/-- Releasing a chain of nodes. -/
def releaseAll : List Nat → Heap → Option Heap
  | [], h => some h
  | id :: rest, h =>
    if (h.cells id).isSome then
      releaseAll rest { h with cells := fun other => if other = id then none else h.cells other }
    else none

/-! ## Trees in memory -/

/-- A tree with the addresses of its nodes. -/
inductive Addressed where
  | nil
  | node (id : Nat) (left : Addressed) (entry : Entry) (right : Addressed)

namespace Addressed

def root : Addressed → Option Nat
  | nil => none
  | node id _ _ _ => some id

def ids : Addressed → List Nat
  | nil => []
  | node id left _ right => left.ids ++ id :: right.ids

def plain : Addressed → Nodes
  | nil => .nil
  | node _ left entry right => .node left.plain entry right.plain

theorem root_node (id : Nat) (left : Addressed) (entry : Entry) (right : Addressed) :
    (node id left entry right).root = some id := rfl

theorem ids_length (tree : Addressed) : tree.ids.length = tree.plain.entries.length := by
  induction tree with
  | nil => rfl
  | node id left entry right ihl ihr =>
    simp only [ids, plain, Nodes.entries, List.length_append, List.length_cons, ihl, ihr]

end Addressed

open Addressed

/-- The cells of a tree are where its pointers say. -/
def Stored (cells : Nat → Option Cell) : Addressed → Prop
  | .nil => True
  | .node id left entry right =>
    cells id = some ⟨entry, left.root, right.root⟩ ∧ Stored cells left ∧ Stored cells right

theorem Stored.frame {cells cells' : Nat → Option Cell} {tree : Addressed} (stored : Stored cells tree)
    (same : ∀ id ∈ tree.ids, cells' id = cells id) : Stored cells' tree := by
  induction tree with
  | nil => trivial
  | node id left entry right ihl ihr =>
    obtain ⟨here, lower, upper⟩ := stored
    refine ⟨(same id (List.mem_append_right _ List.mem_cons_self)).trans here, ?_, ?_⟩
    · exact ihl lower fun other inside => same other (List.mem_append_left _ inside)
    · exact ihr upper fun other inside =>
        same other (List.mem_append_right _ (List.mem_cons_of_mem _ inside))

theorem Stored.allocated {cells : Nat → Option Cell} {tree : Addressed} (stored : Stored cells tree)
    {id : Nat} (inside : id ∈ tree.ids) : (cells id).isSome = true := by
  induction tree with
  | nil => cases inside
  | node here left entry right ihl ihr =>
    obtain ⟨cell, lower, upper⟩ := stored
    rcases List.mem_append.mp inside with low | rest
    · exact ihl lower low
    · rcases List.mem_cons.mp rest with rfl | high
      · rw [cell]
        rfl
      · exact ihr upper high

/-- Nothing is allocated past the last address handed out. -/
def Clean (h : Heap) : Prop := ∀ id, h.next ≤ id → h.cells id = none

theorem Stored.lt_next {h : Heap} {tree : Addressed} (clean : Clean h) (stored : Stored h.cells tree)
    {id : Nat} (inside : id ∈ tree.ids) : id < h.next := by
  by_contra reached
  have allocated := stored.allocated inside
  rw [clean id (Nat.not_lt.mp reached)] at allocated
  cases allocated

/-! ## What an operation does to the heap -/

/-- Cells that were there are left alone, new ones are on the chain of clones, and nothing goes
off the chain of retired nodes. -/
structure Works (h h' : Heap) (op op' : TreapOp) : Prop where
  next : h.next ≤ h'.next
  same : ∀ id < h.next, h'.cells id = h.cells id
  fresh : ∀ id, h.next ≤ id → ((h'.cells id).isSome = true ↔ id < h'.next)
  alloc : ∀ id, op'.alloc.count id = op.alloc.count id + if h.next ≤ id ∧ id < h'.next then 1 else 0
  free : ∀ id, op.free.count id ≤ op'.free.count id

/-- Nodes are neither lost nor doubled: what was in the trees or is a new clone is in the trees or
retired. -/
def Balanced (op op' : TreapOp) (before after : List Nat) : Prop :=
  ∀ id, after.count id + op'.free.count id + op.alloc.count id =
    before.count id + op.free.count id + op'.alloc.count id

theorem Works.refl {h : Heap} (clean : Clean h) (op : TreapOp) : Works h h op op where
  next := Nat.le_refl _
  same _ _ := rfl
  fresh id reached := by simp [clean id reached, Nat.not_lt.mpr reached]
  alloc id := by
    have outside : ¬(h.next ≤ id ∧ id < h.next) := by omega
    rw [if_neg outside, Nat.add_zero]
  free _ := Nat.le_refl _

theorem Works.trans {h h₁ h₂ : Heap} {op op₁ op₂ : TreapOp} (first : Works h h₁ op op₁)
    (second : Works h₁ h₂ op₁ op₂) : Works h h₂ op op₂ where
  next := Nat.le_trans first.next second.next
  same id old := (second.same id (Nat.lt_of_lt_of_le old first.next)).trans (first.same id old)
  fresh id reached := by
    by_cases early : id < h₁.next
    · rw [second.same id early, first.fresh id reached]
      have grown := second.next
      omega
    · exact second.fresh id (Nat.not_lt.mp early)
  alloc id := by
    have one := first.alloc id
    have two := second.alloc id
    have grown := first.next
    have grown' := second.next
    split at one <;> split at two <;> split <;> omega
  free id := Nat.le_trans (first.free id) (second.free id)

theorem Works.clean {h h' : Heap} {op op' : TreapOp} (works : Works h h' op op') : Clean h' := by
  intro id reached
  have absent : ¬(h'.cells id).isSome = true := by
    rw [works.fresh id (Nat.le_trans works.next reached)]
    exact Nat.not_lt.mpr reached
  simpa using absent

/-- A write into a new cell. -/
theorem Works.edit {h h' : Heap} {op op' : TreapOp} (works : Works h h' op op') {id : Nat}
    (new : h.next ≤ id) (change : Cell → Cell) : Works h (h'.edit id change) op op' where
  next := works.next
  same other old := by
    have differ : other ≠ id := by omega
    simpa [Heap.edit, differ] using works.same other old
  fresh other reached := by
    by_cases same : other = id
    · subst same
      simpa [Heap.edit] using works.fresh other reached
    · simpa [Heap.edit, same] using works.fresh other reached
  alloc := works.alloc
  free := works.free

theorem Balanced.trans {op op₁ op₂ : TreapOp} {before middle after : List Nat}
    (first : Balanced op op₁ before middle) (second : Balanced op₁ op₂ middle after) :
    Balanced op op₂ before after := by
  intro id
  have one := first id
  have two := second id
  omega

/-- Trees that take no part. -/
theorem Balanced.beside {op op' : TreapOp} {before after : List Nat} (balanced : Balanced op op' before after)
    (others : List Nat) : Balanced op op' (others ++ before) (others ++ after) := by
  intro id
  have law := balanced id
  simp only [List.count_append]
  omega

/-- Retiring more nodes. -/
theorem Works.retire {h h' : Heap} {op op' : TreapOp} (works : Works h h' op op') (retired : List Nat) :
    Works h h' op { op' with free := op'.free ++ retired } where
  next := works.next
  same := works.same
  fresh := works.fresh
  alloc := works.alloc
  free id := by
    rw [List.count_append]
    exact Nat.le_trans (works.free id) (Nat.le_add_right _ _)

theorem newNode_works {h : Heap} (clean : Clean h) (op : TreapOp) (cell : Cell) :
    Works h (newNode h op cell).1 op (newNode h op cell).2 where
  next := Nat.le_succ _
  same id old := by
    have differ : id ≠ h.next := by omega
    simp [newNode, differ]
  fresh id reached := by
    by_cases same : id = h.next
    · simp [newNode, same]
    · have past : ¬id < h.next + 1 := by omega
      simp [newNode, same, clean id reached, past]
  alloc id := by
    change (h.next :: op.alloc).count id = op.alloc.count id + if h.next ≤ id ∧ id < h.next + 1 then 1 else 0
    rw [List.count_cons]
    by_cases same : id = h.next
    · subst same
      simp
    · have differ : ¬(h.next == id) = true := by simpa using Ne.symm same
      have outside : ¬(h.next ≤ id ∧ id < h.next + 1) := by omega
      rw [if_neg differ, if_neg outside]
  free _ := Nat.le_refl _

theorem clone_works {h : Heap} (clean : Clean h) (op : TreapOp) (id : Nat) (cell : Cell) :
    Works h (treapCloneNode h op id cell).1 op (treapCloneNode h op id cell).2 := by
  obtain ⟨next, same, fresh, alloc, -⟩ := newNode_works clean { op with free := op.free ++ [id] } cell
  refine ⟨next, same, fresh, alloc, fun other => ?_⟩
  simp only [treapCloneNode, newNode, List.count_append]
  exact Nat.le_add_right _ _

/-- A node that was there before is in the trees afterwards only when it was in them. -/
theorem Works.old_notMem {h h' : Heap} {op op' : TreapOp} (works : Works h h' op op')
    {before after : List Nat} (balanced : Balanced op op' before after) {id : Nat} (old : id < h.next)
    (absent : id ∉ before) : id ∉ after := by
  rw [← List.count_eq_zero] at absent ⊢
  have law := balanced id
  have alloc := works.alloc id
  have free := works.free id
  rw [if_neg (by omega)] at alloc
  omega

/-- Trees of nodes that were there are still stored. -/
theorem Works.stored {h h' : Heap} {op op' : TreapOp} (works : Works h h' op op') (clean : Clean h)
    {tree : Addressed} (stored : Stored h.cells tree) : Stored h'.cells tree :=
  stored.frame fun id inside => works.same id (stored.lt_next clean inside)

theorem Stored.edit {h : Heap} {tree : Addressed} (stored : Stored h.cells tree) {id : Nat}
    (absent : id ∉ tree.ids) (change : Cell → Cell) : Stored (h.edit id change).cells tree :=
  stored.frame fun other inside => by
    have differ : other ≠ id := fun same => absent (same ▸ inside)
    simp [Heap.edit, differ]

/-! ## Split, merge and removal of the smallest node -/

/-- The clone of a node in a grown heap. -/
theorem clone_cell {h h' : Heap} {op op' : TreapOp} {id : Nat} {cell : Cell}
    (works : Works (treapCloneNode h op id cell).1 h' (treapCloneNode h op id cell).2 op') :
    h'.cells h.next = some cell := by
  rw [works.same h.next (Nat.lt_succ_self _)]
  simp [treapCloneNode, newNode]

/-- What a clone below which `inner` was built is balanced by. -/
theorem clone_balanced {h : Heap} {op op' : TreapOp} {id : Nat} {cell : Cell} {before after : List Nat}
    (balanced : Balanced (treapCloneNode h op id cell).2 op' before after) :
    Balanced op op' (id :: before) (h.next :: after) := by
  intro other
  have law := balanced other
  simp only [treapCloneNode, newNode, List.count_append, List.count_cons, List.count_nil] at law ⊢
  omega

theorem treapSplit_spec (key : List UInt8) {tree : Addressed} {fuel : Nat} {h : Heap} (op : TreapOp)
    (clean : Clean h) (stored : Stored h.cells tree) (enough : tree.ids.length ≤ fuel) :
    ∃ h' op' l r, treapSplit key fuel h op tree.root = some (h', op', l.root, r.root) ∧
      Works h h' op op' ∧ Stored h'.cells l ∧ Stored h'.cells r ∧
      Balanced op op' tree.ids (l.ids ++ r.ids) ∧
      l.plain = (Treap.treapSplit key tree.plain).1 ∧ r.plain = (Treap.treapSplit key tree.plain).2 := by
  induction tree generalizing fuel h op with
  | nil =>
    refine ⟨h, op, .nil, .nil, ?_, Works.refl clean op, trivial, trivial, fun _ => rfl, rfl, rfl⟩
    cases fuel <;> rfl
  | node id left entry right ihl ihr =>
    obtain ⟨cell, lower, upper⟩ := stored
    simp only [ids, List.length_append, List.length_cons] at enough
    obtain ⟨fuel, rfl⟩ : ∃ less, fuel = less + 1 := ⟨fuel - 1, by omega⟩
    have cloned := clone_works clean op id ⟨entry, left.root, right.root⟩
    have lower' := cloned.stored clean lower
    have upper' := cloned.stored clean upper
    have reached : h.next ∉ left.ids ∧ h.next ∉ right.ids :=
      ⟨fun inside => Nat.lt_irrefl _ (lower.lt_next clean inside),
        fun inside => Nat.lt_irrefl _ (upper.lt_next clean inside)⟩
    by_cases low : treapKeyCmp key entry.key ≠ .gt
    · obtain ⟨h', op', l, r, done, works, front, back, balanced, plainL, plainR⟩ :=
        ihl (treapCloneNode h op id ⟨entry, left.root, right.root⟩).2 cloned.clean lower'
          (show left.ids.length ≤ fuel by omega)
      have absent := works.old_notMem balanced (Nat.lt_succ_self h.next) reached.1
      rw [List.mem_append, not_or] at absent
      refine ⟨h'.setLeft h.next r.root, op', l, .node h.next r entry right, ?_,
        (cloned.trans works).edit (Nat.le_refl _) _, front.edit absent.1 _,
        ⟨?_, back.edit absent.2 _, ((works.stored cloned.clean upper').edit reached.2 _)⟩, ?_, ?_, ?_⟩
      · simp only [root_node, treapSplit, cell, Option.bind_eq_bind, Option.bind_some, if_pos low, done,
          Option.pure_def]
      · simp [Heap.setLeft, Heap.edit, clone_cell works]
      · have whole := clone_balanced balanced
        intro other
        have law := whole other
        simp only [ids, List.count_append, List.count_cons] at law ⊢
        omega
      · simp only [Addressed.plain, Treap.treapSplit, if_pos low, plainL]
      · simp only [Addressed.plain, Treap.treapSplit, if_pos low, plainR]
    · obtain ⟨h', op', l, r, done, works, front, back, balanced, plainL, plainR⟩ :=
        ihr (treapCloneNode h op id ⟨entry, left.root, right.root⟩).2 cloned.clean upper'
          (show right.ids.length ≤ fuel by omega)
      have absent := works.old_notMem balanced (Nat.lt_succ_self h.next) reached.2
      rw [List.mem_append, not_or] at absent
      refine ⟨h'.setRight h.next l.root, op', .node h.next left entry l, r, ?_,
        (cloned.trans works).edit (Nat.le_refl _) _,
        ⟨?_, ((works.stored cloned.clean lower').edit reached.1 _), front.edit absent.1 _⟩,
        back.edit absent.2 _, ?_, ?_, ?_⟩
      · simp only [root_node, treapSplit, cell, Option.bind_eq_bind, Option.bind_some, if_neg low, done,
          Option.pure_def]
      · simp [Heap.setRight, Heap.edit, clone_cell works]
      · have whole := clone_balanced balanced
        intro other
        have law := whole other
        simp only [ids, List.count_append, List.count_cons] at law ⊢
        omega
      · simp only [Addressed.plain, Treap.treapSplit, if_neg low, plainL]
      · simp only [Addressed.plain, Treap.treapSplit, if_neg low, plainR]

theorem treapMerge_spec (fuel : Nat) {left right : Addressed} {h : Heap} (op : TreapOp)
    (clean : Clean h) (lower : Stored h.cells left) (upper : Stored h.cells right)
    (enough : left.ids.length + right.ids.length ≤ fuel) :
    ∃ h' op' merged, treapMerge fuel h op left.root right.root = some (h', op', merged.root) ∧
      Works h h' op op' ∧ Stored h'.cells merged ∧
      Balanced op op' (left.ids ++ right.ids) merged.ids ∧
      merged.plain = Treap.treapMerge left.plain right.plain := by
  induction fuel generalizing left right h op with
  | zero =>
    cases left with
    | nil =>
      exact ⟨h, op, right, by simp [treapMerge, root], Works.refl clean op, upper, fun _ => by simp [ids], rfl⟩
    | node a ll le lr => simp [ids] at enough
  | succ fuel ih =>
    cases left with
    | nil =>
      exact ⟨h, op, right, by simp [treapMerge, root], Works.refl clean op, upper, fun _ => by simp [ids], rfl⟩
    | node a ll le lr =>
      cases right with
      | nil =>
        exact ⟨h, op, .node a ll le lr, by simp [treapMerge, root], Works.refl clean op, lower,
          fun _ => by simp [ids], rfl⟩
      | node b rl re rr =>
        obtain ⟨low, ll', lr'⟩ := lower
        obtain ⟨high, rl', rr'⟩ := upper
        simp only [ids, List.length_append, List.length_cons] at enough
        have absent (tree : Addressed) (stored : Stored h.cells tree) : h.next ∉ tree.ids :=
          fun inside => Nat.lt_irrefl _ (stored.lt_next clean inside)
        by_cases above : treapPriorityCmp le re = .gt
        · have cloned := clone_works clean op a ⟨le, ll.root, lr.root⟩
          obtain ⟨h', op', merged, done, works, kept, balanced, plain⟩ :=
            @ih lr (.node b rl re rr) _ (treapCloneNode h op a ⟨le, ll.root, lr.root⟩).2 cloned.clean
              (cloned.stored clean lr') (cloned.stored clean ⟨high, rl', rr'⟩)
              (by simp only [ids, List.length_append, List.length_cons]; omega)
          have outside : h.next ∉ merged.ids := by
            refine works.old_notMem balanced (Nat.lt_succ_self h.next) ?_
            rw [List.mem_append, not_or]
            exact ⟨absent lr lr', absent (.node b rl re rr) ⟨high, rl', rr'⟩⟩
          refine ⟨h'.setRight h.next merged.root, op', .node h.next ll le merged, ?_,
            (cloned.trans works).edit (Nat.le_refl _) _,
            ⟨?_, (works.stored cloned.clean (cloned.stored clean ll')).edit (absent ll ll') _,
              kept.edit outside _⟩, ?_, ?_⟩
          · rw [root_node] at done
            simp only [root_node, treapMerge, low, high, Option.bind_eq_bind, Option.bind_some, if_pos above,
              done, Option.pure_def]
          · simp [Heap.setRight, Heap.edit, clone_cell works]
          · have whole := clone_balanced balanced
            intro other
            have law := whole other
            simp only [ids, List.count_append, List.count_cons] at law ⊢
            omega
          · simp only [Addressed.plain] at plain ⊢
            simp only [Treap.treapMerge, Treap.mergeUnder, if_pos above, plain]
        · have cloned := clone_works clean op b ⟨re, rl.root, rr.root⟩
          obtain ⟨h', op', merged, done, works, kept, balanced, plain⟩ :=
            @ih (.node a ll le lr) rl _ (treapCloneNode h op b ⟨re, rl.root, rr.root⟩).2 cloned.clean
              (cloned.stored clean ⟨low, ll', lr'⟩) (cloned.stored clean rl')
              (by simp only [ids, List.length_append, List.length_cons]; omega)
          have outside : h.next ∉ merged.ids := by
            refine works.old_notMem balanced (Nat.lt_succ_self h.next) ?_
            rw [List.mem_append, not_or]
            exact ⟨absent (.node a ll le lr) ⟨low, ll', lr'⟩, absent rl rl'⟩
          refine ⟨h'.setLeft h.next merged.root, op', .node h.next merged re rr, ?_,
            (cloned.trans works).edit (Nat.le_refl _) _,
            ⟨?_, kept.edit outside _,
              (works.stored cloned.clean (cloned.stored clean rr')).edit (absent rr rr') _⟩, ?_, ?_⟩
          · rw [root_node] at done
            simp only [root_node, treapMerge, low, high, Option.bind_eq_bind, Option.bind_some, if_neg above,
              done, Option.pure_def]
          · simp [Heap.setLeft, Heap.edit, clone_cell works]
          · have whole := clone_balanced balanced
            intro other
            have law := whole other
            simp only [ids, List.count_append, List.count_cons] at law ⊢
            omega
          · simp only [Addressed.plain] at plain ⊢
            simp only [Treap.treapMerge, Treap.mergeUnder, if_neg above, plain]

theorem root_eq_none {tree : Addressed} : tree.root = none ↔ tree = .nil := by
  cases tree <;> simp [root]

theorem treapRemoveMin_spec {tree : Addressed} {fuel : Nat} {h : Heap} (op : TreapOp)
    (clean : Clean h) (stored : Stored h.cells tree) (enough : tree.ids.length ≤ fuel) :
    ∃ h' op' rest smallest, treapRemoveMin fuel h op tree.root = some (h', op', rest.root, smallest) ∧
      Works h h' op op' ∧ Stored h'.cells rest ∧
      Balanced op op' tree.ids (rest.ids ++ smallest.toList) ∧
      rest.plain = Treap.treapRemoveMin tree.plain := by
  induction tree generalizing fuel h op with
  | nil =>
    refine ⟨h, op, .nil, none, ?_, Works.refl clean op, trivial, fun _ => rfl, rfl⟩
    cases fuel <;> rfl
  | node id left entry right ihl _ =>
    obtain ⟨cell, lower, upper⟩ := stored
    simp only [ids, List.length_append, List.length_cons] at enough
    obtain ⟨fuel, rfl⟩ : ∃ less, fuel = less + 1 := ⟨fuel - 1, by omega⟩
    by_cases leaf : left.root = none
    · have empty := root_eq_none.mp leaf
      subst empty
      refine ⟨h, op, right, some id, ?_, Works.refl clean op, upper, fun other => ?_, rfl⟩
      · simp only [root, treapRemoveMin, cell, Option.bind_eq_bind, Option.bind_some, if_true, Option.pure_def]
      · simp only [ids, List.nil_append, Option.toList_some, List.count_append, List.count_cons, List.count_nil]
        omega
    · have cloned := clone_works clean op id ⟨entry, left.root, right.root⟩
      have lower' := cloned.stored clean lower
      have upper' := cloned.stored clean upper
      obtain ⟨h', op', rest, smallest, done, works, kept, balanced, plain⟩ :=
        ihl (treapCloneNode h op id ⟨entry, left.root, right.root⟩).2 cloned.clean lower'
          (show left.ids.length ≤ fuel by omega)
      have absent := works.old_notMem balanced (Nat.lt_succ_self h.next)
        (fun inside => Nat.lt_irrefl _ (lower.lt_next clean inside))
      rw [List.mem_append, not_or] at absent
      refine ⟨h'.setLeft h.next rest.root, op', .node h.next rest entry right, smallest, ?_,
        (cloned.trans works).edit (Nat.le_refl _) _,
        ⟨?_, kept.edit absent.1 _, (works.stored cloned.clean upper').edit
          (fun inside => Nat.lt_irrefl _ (upper.lt_next clean inside)) _⟩, ?_, ?_⟩
      · simp only [root_node, treapRemoveMin, cell, Option.bind_eq_bind, Option.bind_some, if_neg leaf, done,
          Option.pure_def]
      · simp [Heap.setLeft, Heap.edit, clone_cell works]
      · have whole := clone_balanced balanced
        intro other
        have law := whole other
        simp only [ids, List.count_append, List.count_cons] at law ⊢
        omega
      · cases left with
        | nil => exact absurd rfl leaf
        | node id' ll le lr =>
          simp only [Addressed.plain] at plain ⊢
          simp only [Treap.treapRemoveMin, plain]

/-! ## Walks that only read -/

theorem leftmost_spec {tree : Addressed} {fuel : Nat} {h : Heap} (stored : Stored h.cells tree)
    (enough : tree.ids.length ≤ fuel) : leftmost fuel h tree.root = some (Treap.leftmost tree.plain) := by
  induction tree generalizing fuel with
  | nil => cases fuel <;> rfl
  | node id left entry right ihl _ =>
    obtain ⟨cell, lower, -⟩ := stored
    simp only [ids, List.length_append, List.length_cons] at enough
    obtain ⟨fuel, rfl⟩ : ∃ less, fuel = less + 1 := ⟨fuel - 1, by omega⟩
    simp only [root_node, leftmost, cell, Option.bind_eq_bind, Option.bind_some, Option.pure_def]
    cases left with
    | nil => rfl
    | node id' ll le lr => exact ihl lower (show (Addressed.node id' ll le lr).ids.length ≤ fuel by omega)

theorem pushFreeTree_spec {tree : Addressed} {fuel : Nat} {h : Heap} (stored : Stored h.cells tree)
    (enough : tree.ids.length ≤ fuel) :
    ∃ removed, pushFreeTree fuel h tree.root = some removed ∧ ∀ id, removed.count id = tree.ids.count id := by
  induction tree generalizing fuel with
  | nil => exact ⟨[], by cases fuel <;> rfl, fun _ => rfl⟩
  | node id left entry right ihl ihr =>
    obtain ⟨cell, lower, upper⟩ := stored
    simp only [ids, List.length_append, List.length_cons] at enough
    obtain ⟨fuel, rfl⟩ : ∃ less, fuel = less + 1 := ⟨fuel - 1, by omega⟩
    obtain ⟨front, before, same⟩ := ihl lower (show left.ids.length ≤ fuel by omega)
    obtain ⟨back, behind, same'⟩ := ihr upper (show right.ids.length ≤ fuel by omega)
    refine ⟨id :: front ++ back, ?_, fun other => ?_⟩
    · simp only [root_node, pushFreeTree, cell, Option.bind_eq_bind, Option.bind_some, before, behind,
        Option.pure_def]
    · simp only [ids, List.count_append, List.count_cons, List.cons_append, same, same']
      omega

theorem savedEntries_spec {tree : Addressed} {fuel : Nat} {h : Heap} (stored : Stored h.cells tree)
    (enough : tree.ids.length ≤ fuel) : savedEntries fuel h tree.root = some tree.plain.entries := by
  induction tree generalizing fuel with
  | nil => cases fuel <;> rfl
  | node id left entry right ihl ihr =>
    obtain ⟨cell, lower, upper⟩ := stored
    simp only [ids, List.length_append, List.length_cons] at enough
    obtain ⟨fuel, rfl⟩ : ∃ less, fuel = less + 1 := ⟨fuel - 1, by omega⟩
    simp only [root_node, savedEntries, cell, Option.bind_eq_bind, Option.bind_some, Option.pure_def,
      ihl lower (show left.ids.length ≤ fuel by omega), ihr upper (show right.ids.length ≤ fuel by omega)]
    rfl

/-- A chain of different allocated nodes is released without a fault, and nothing else is. -/
theorem releaseAll_spec {chain : List Nat} {h : Heap} (once : ∀ id, chain.count id ≤ 1)
    (allocated : ∀ id ∈ chain, (h.cells id).isSome = true) :
    ∃ h', releaseAll chain h = some h' ∧ h'.next = h.next ∧
      ∀ id, h'.cells id = if id ∈ chain then none else h.cells id := by
  induction chain generalizing h with
  | nil => exact ⟨h, rfl, rfl, fun id => by simp⟩
  | cons first chain ih =>
    have unique : first ∉ chain := by
      have bound := once first
      rw [List.count_cons_self] at bound
      exact List.count_eq_zero.mp (by omega)
    have fewer : ∀ id, chain.count id ≤ 1 := fun id => by
      have bound := once id
      rw [List.count_cons] at bound
      omega
    obtain ⟨h', done, next, cells⟩ := @ih
      { h with cells := fun other => if other = first then none else h.cells other } fewer (by
        intro id inside
        have differ : id ≠ first := fun same => unique (same ▸ inside)
        simpa [differ] using allocated id (List.mem_cons_of_mem _ inside))
    refine ⟨h', ?_, next, fun id => ?_⟩
    · rw [releaseAll, if_pos (allocated first List.mem_cons_self), done]
    · rw [cells id]
      by_cases same : id = first
      · simp [same]
      · simp [same]

end Kynovo.Store.NodeHeap
