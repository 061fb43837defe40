import Kynovo.Store.NodeHeap
import Kynovo.Store.OrderedMap

/-! Views and the release of nodes. An update builds its tree beside the old one and hands out the
nodes it retired; they wait in lists until a save of a later view is finished. No address is
released while a root still leads to it, and every address is released at most once. -/
namespace Kynovo.Store.Isolation
open Kynovo.Lib.LittleEndian
open Kynovo.Store.Treap (Entry Nodes treapKeyCmp treapNodeInit)
open Kynovo.Store.Order
open Kynovo.Store.NodeHeap
open Kynovo.Store.NodeHeap.Addressed
open Kynovo.Store.OrderedMap (Update Work Call)

/-! ## Updates -/

/-- An update is published or, when it changes nothing, its clones are released. -/
inductive Outcome where
  | published (h : Heap) (op : TreapOp) (root : Option Nat)
  | discarded (h : Heap) (released : List Nat)

def startOp : TreapOp := ⟨[], []⟩

def treapOpDiscard (h : Heap) (op : TreapOp) : Option Outcome :=
  (releaseAll op.alloc h).map (fun h => .discarded h op.alloc)

/-- The right side of a split without the node of the key, which is retired, and whether there was
one. -/
def withoutMin (fuel : Nat) (h : Heap) (op : TreapOp) (right : Option Nat) (key : List UInt8) :
    Option (Heap × TreapOp × Option Nat × Bool) := do
  let first ← leftmost fuel h right
  if first.any (fun entry => treapKeyCmp entry.key key == .eq) then
    let (h, op, rest, smallest) ← treapRemoveMin fuel h op right
    return (h, { op with free := op.free ++ smallest.toList }, rest, true)
  else return (h, op, right, false)

/-- Loops are given as many rounds as there can be nodes. -/
def rounds (h : Heap) : Nat := h.next + 1

def treapSet (seed : UInt64) (h : Heap) (root : Option Nat) (key value : List UInt8) : Option Outcome :=
  if key = [] then some (.discarded h [])
  else do
    let fuel := rounds h
    let (h, op, l, r) ← treapSplit key fuel h startOp root
    let (h, op, r, _) ← withoutMin fuel h op r key
    match treapNodeInit seed key value with
    | none => treapOpDiscard h op
    | some entry =>
      let id := h.next
      let (h, op) := newNode h op ⟨entry, none, none⟩
      let (h, op, mid) ← treapMerge fuel h op (some id) r
      let (h, op, root) ← treapMerge fuel h op l mid
      return .published h op root

def treapDelete (h : Heap) (root : Option Nat) (key : List UInt8) : Option Outcome :=
  if key = [] then some (.discarded h [])
  else do
    let fuel := rounds h
    let (h, op, l, r) ← treapSplit key fuel h startOp root
    let (h, op, r, found) ← withoutMin fuel h op r key
    if found then
      let (h, op, root) ← treapMerge fuel h op l r
      return .published h op root
    else treapOpDiscard h op

/-- The cut at the lower bound; an open bound leaves nothing below it. -/
def cutLow (fuel : Nat) (h : Heap) (op : TreapOp) (root : Option Nat) (first : List UInt8) :
    Option (Heap × TreapOp × Option Nat × Option Nat) :=
  if first = [] then some (h, op, none, root) else treapSplit first fuel h op root

def cutHigh (fuel : Nat) (h : Heap) (op : TreapOp) (root : Option Nat) (last : List UInt8) :
    Option (Heap × TreapOp × Option Nat × Option Nat) :=
  if last = [] then some (h, op, root, none) else treapSplit last fuel h op root

def treapDeleteRange (h : Heap) (root : Option Nat) (first last : List UInt8) : Option Outcome := do
  let fuel := rounds h
  let (h, op, l, m) ← cutLow fuel h startOp root first
  let (h, op, m, r) ← cutHigh fuel h op m last
  let removed ← pushFreeTree fuel h m
  let (h, op, root) ← treapMerge fuel h { op with free := op.free ++ removed } l r
  return .published h op root

def applyUpdate (seed : UInt64) (h : Heap) (root : Option Nat) : Update → Option Outcome
  | .set key value => treapSet seed h root key value
  | .delete key => treapDelete h root key
  | .deleteRange first last => treapDeleteRange h root first last

/-- The root that the update leaves in a tree that is a value. -/
def updated (seed : UInt64) (root : Nodes) : Update → Nodes
  | .set key value =>
    match treapNodeInit seed key value with
    | none => root
    | some entry => Treap.setRoot root entry
  | .delete key =>
    if Treap.holdsAtMin (Treap.treapSplit key root).2 key then
      Treap.treapMerge (Treap.treapSplit key root).1 (Treap.treapRemoveMin (Treap.treapSplit key root).2)
    else root
  | .deleteRange first last =>
    Treap.treapMerge (Treap.rangeParts root first last).1 (Treap.rangeParts root first last).2.2

/-! ## What an update does -/

/-- A tree whose nodes are stored once. -/
structure Sits (h : Heap) (tree : Addressed) : Prop where
  stored : Stored h.cells tree
  once : ∀ id, tree.ids.count id ≤ 1

theorem Sits.length_le {h : Heap} {tree : Addressed} (clean : Clean h) (sits : Sits h tree) :
    tree.ids.length ≤ h.next := by
  have nodup : tree.ids.Nodup := List.nodup_iff_count_le_one.mpr sits.once
  have within : tree.ids ⊆ List.range h.next := fun id inside =>
    List.mem_range.mpr (sits.stored.lt_next clean inside)
  simpa using (List.subperm_of_subset nodup within).length_le

/-- The new tree is the expected one, and no node of it or of the old one is lost. -/
inductive Good (h : Heap) (tree : Addressed) (expected : Nodes) : Outcome → Prop where
  | published {h' : Heap} {op : TreapOp} {after : Addressed} :
    Works h h' startOp op → Stored h'.cells after → Balanced startOp op tree.ids after.ids →
      after.plain = expected → Good h tree expected (.published h' op after.root)
  | discarded {h' : Heap} {released : List Nat} :
    h'.cells = h.cells → h.next ≤ h'.next →
      (∀ id, released.count id = if h.next ≤ id ∧ id < h'.next then 1 else 0) →
      tree.plain = expected → Good h tree expected (.discarded h' released)

theorem discard_good {h h' : Heap} {op : TreapOp} (tree : Addressed) (clean : Clean h)
    (works : Works h h' startOp op) :
    ∃ outcome, treapOpDiscard h' op = some outcome ∧ Good h tree tree.plain outcome := by
  have counted : ∀ id, op.alloc.count id = if h.next ≤ id ∧ id < h'.next then 1 else 0 := fun id => by
    simpa [startOp] using works.alloc id
  have member : ∀ id ∈ op.alloc, h.next ≤ id ∧ id < h'.next := fun id inside => by
    by_contra outside
    have none := counted id
    rw [if_neg outside, List.count_eq_zero] at none
    exact none inside
  obtain ⟨h'', done, next, cells⟩ := @releaseAll_spec op.alloc h'
    (fun id => by rw [counted id]; split <;> omega)
    (fun id inside => (works.fresh id (member id inside).1).mpr (member id inside).2)
  refine ⟨.discarded h'' op.alloc, by rw [treapOpDiscard, done, Option.map_some], .discarded ?_ ?_ ?_ rfl⟩
  · funext id
    rw [cells id]
    by_cases inside : id ∈ op.alloc
    · rw [if_pos inside, clean id (member id inside).1]
    · rw [if_neg inside]
      by_cases old : id < h.next
      · exact works.same id old
      · rw [clean id (Nat.not_lt.mp old)]
        have missing : ¬id < h'.next := fun early => by
          have one := counted id
          rw [if_pos ⟨Nat.not_lt.mp old, early⟩, List.count_eq_zero.mpr inside] at one
          omega
        exact works.clean id (Nat.not_lt.mp missing)
  · rw [next]
    exact works.next
  · rw [next]
    exact counted

theorem split_lengths {key : List UInt8} {tree l r : Addressed} (left : l.plain = (Treap.treapSplit key tree.plain).1)
    (right : r.plain = (Treap.treapSplit key tree.plain).2) : l.ids.length + r.ids.length = tree.ids.length := by
  rw [ids_length, ids_length, ids_length, left, right, ← List.length_append, Treap.treapSplit_entries]

theorem withoutMin_spec (key : List UInt8) {tree : Addressed} {fuel : Nat} {h : Heap} (op : TreapOp)
    (clean : Clean h) (stored : Stored h.cells tree) (enough : tree.ids.length ≤ fuel) :
    ∃ h' op' rest, withoutMin fuel h op tree.root key =
        some (h', op', rest.root, Treap.holdsAtMin tree.plain key) ∧
      Works h h' op op' ∧ Stored h'.cells rest ∧ Balanced op op' tree.ids rest.ids ∧
      rest.plain = Treap.withoutMin tree.plain key := by
  have first := leftmost_spec stored enough
  by_cases holds : Treap.holdsAtMin tree.plain key = true
  · obtain ⟨h', op', rest, smallest, done, works, kept, balanced, plain⟩ :=
      treapRemoveMin_spec op clean stored enough
    refine ⟨h', { op' with free := op'.free ++ smallest.toList }, rest, ?_, works.retire _, kept, ?_, ?_⟩
    · have here := holds
      unfold Treap.holdsAtMin at here
      simp only [withoutMin, first, Option.bind_eq_bind, Option.bind_some, here, if_true, done,
        Option.pure_def, holds]
    · intro id
      have law := balanced id
      simp only [List.count_append] at law ⊢
      omega
    · rw [plain, Treap.withoutMin, if_pos holds]
  · refine ⟨h, op, tree, ?_, Works.refl clean op, stored, fun _ => rfl, ?_⟩
    · have here := holds
      unfold Treap.holdsAtMin at here
      simp only [withoutMin, first, Option.bind_eq_bind, Option.bind_some, here, Bool.false_eq_true,
        if_false, Option.pure_def, Bool.eq_false_iff.mpr holds]
    · rw [Treap.withoutMin, if_neg holds]

theorem withoutMin_length {key : List UInt8} {tree rest : Addressed}
    (plain : rest.plain = Treap.withoutMin tree.plain key) : rest.ids.length ≤ tree.ids.length := by
  rw [ids_length, ids_length, plain, Treap.withoutMin_entries]
  split
  · rw [List.length_tail]
    omega
  · exact Nat.le_refl _

/-- The part that a set and a delete begin with. -/
theorem parted (key : List UInt8) {tree : Addressed} {h : Heap} (clean : Clean h) (sits : Sits h tree) :
    ∃ (h₁ : Heap) (op₁ : TreapOp) (l r : Addressed) (h₂ : Heap) (op₂ : TreapOp) (rest : Addressed),
      treapSplit key (rounds h) h startOp tree.root = some (h₁, op₁, l.root, r.root) ∧
      withoutMin (rounds h) h₁ op₁ r.root key =
        some (h₂, op₂, rest.root, Treap.holdsAtMin (Treap.treapSplit key tree.plain).2 key) ∧
      Works h h₂ startOp op₂ ∧ Stored h₂.cells l ∧ Stored h₂.cells rest ∧
      Balanced startOp op₂ tree.ids (l.ids ++ rest.ids) ∧ l.plain = (Treap.treapSplit key tree.plain).1 ∧
      rest.plain = Treap.withoutMin (Treap.treapSplit key tree.plain).2 key ∧
      l.ids.length + rest.ids.length ≤ h.next := by
  have short := sits.length_le clean
  obtain ⟨h₁, op₁, l, r, split, works, front, back, balanced, plainL, plainR⟩ :=
    treapSplit_spec key startOp clean sits.stored (show tree.ids.length ≤ rounds h by unfold rounds; omega)
  have sizes := split_lengths plainL plainR
  obtain ⟨h₂, op₂, rest, without, works', kept, balanced', plain⟩ :=
    withoutMin_spec key op₁ works.clean back (show r.ids.length ≤ rounds h by unfold rounds; omega)
  have fewer := withoutMin_length plain
  rw [plainR] at without plain
  exact ⟨h₁, op₁, l, r, h₂, op₂, rest, split, without, works.trans works', works'.stored works.clean front,
    kept, balanced.trans (balanced'.beside l.ids), plainL, plain, by omega⟩

theorem treapSet_good (seed : UInt64) {h : Heap} {tree : Addressed} (clean : Clean h) (sits : Sits h tree)
    (key value : List UInt8) :
    ∃ outcome, treapSet seed h tree.root key value = some outcome ∧
      Good h tree (updated seed tree.plain (.set key value)) outcome := by
  by_cases empty : key = []
  · refine ⟨.discarded h [], by rw [treapSet, if_pos empty], .discarded rfl (Nat.le_refl _) ?_ ?_⟩
    · intro id
      rw [if_neg (by omega)]
      rfl
    · simp [updated, treapNodeInit, empty]
  · obtain ⟨h₁, op₁, l, r, h₂, op₂, rest, split, without, works, front, back, balanced, plainL, plain, sizes⟩ :=
      parted key clean sits
    cases made : treapNodeInit seed key value with
    | none =>
      obtain ⟨outcome, done, good⟩ := discard_good tree clean works
      refine ⟨outcome, ?_, ?_⟩
      · simp only [treapSet, if_neg empty, split, without, Option.bind_eq_bind, Option.bind_some, made, done]
      · simpa only [updated, made] using good
    | some entry =>
      have same : entry.key = key := RangeProofs.treapNodeInit_key made
      have fresh := newNode_works works.clean op₂ ⟨entry, none, none⟩
      have single : Stored (newNode h₂ op₂ ⟨entry, none, none⟩).1.cells
          (.node h₂.next .nil entry .nil) := ⟨by simp [newNode, root], trivial, trivial⟩
      obtain ⟨h₃, op₃, mid, joined, works₃, kept₃, balanced₃, plain₃⟩ :=
        treapMerge_spec (rounds h) (newNode h₂ op₂ ⟨entry, none, none⟩).2 fresh.clean single
          (fresh.stored works.clean back) (by
            simp only [ids, List.length_append, List.length_cons, List.length_nil]
            unfold rounds
            omega)
      have grown : mid.ids.length = 1 + rest.ids.length := by
        rw [ids_length, plain₃, Treap.treapMerge_entries, List.length_append, ← ids_length, ← ids_length]
        rfl
      obtain ⟨h₄, op₄, whole, joined', works₄, kept₄, balanced₄, plain₄⟩ :=
        treapMerge_spec (rounds h) op₃ works₃.clean
          (works₃.stored fresh.clean (fresh.stored works.clean front)) kept₃ (by unfold rounds; omega)
      refine ⟨.published h₄ op₄ whole.root, ?_, .published
        (((works.trans fresh).trans works₃).trans works₄) kept₄ ?_ ?_⟩
      · rw [root_node] at joined
        simp only [treapSet, if_neg empty, split, without, Option.bind_eq_bind, Option.bind_some, made,
          joined, joined', Option.pure_def]
      · intro id
        have one := balanced id
        have two := balanced₃ id
        have three := balanced₄ id
        simp only [newNode, ids, List.count_append, List.count_cons, List.count_nil] at one two three ⊢
        omega
      · rw [plain₄, plain₃, plainL, plain]
        simp only [updated, made, Treap.setRoot, same, Addressed.plain]

/-- No node has the empty key. -/
theorem holdsAtMin_empty (tree : Nodes) : Treap.holdsAtMin tree [] = false := by
  unfold Treap.holdsAtMin
  cases Treap.leftmost tree with
  | none => rfl
  | some entry =>
    have differ : treapKeyCmp entry.key [] ≠ .eq := fun same => entry.keyed ((treapKeyCmp_eq_iff _ _).mp same)
    simp [differ]

theorem treapDelete_good (seed : UInt64) {h : Heap} {tree : Addressed} (clean : Clean h) (sits : Sits h tree)
    (key : List UInt8) :
    ∃ outcome, treapDelete h tree.root key = some outcome ∧
      Good h tree (updated seed tree.plain (.delete key)) outcome := by
  by_cases empty : key = []
  · refine ⟨.discarded h [], by rw [treapDelete, if_pos empty], .discarded rfl (Nat.le_refl _) ?_ ?_⟩
    · intro id
      rw [if_neg (by omega)]
      rfl
    · simp only [updated, empty, holdsAtMin_empty, Bool.false_eq_true, if_false]
  · obtain ⟨h₁, op₁, l, r, h₂, op₂, rest, split, without, works, front, back, balanced, plainL, plain, sizes⟩ :=
      parted key clean sits
    by_cases holds : Treap.holdsAtMin (Treap.treapSplit key tree.plain).2 key = true
    · obtain ⟨h₃, op₃, whole, joined, works₃, kept₃, balanced₃, plain₃⟩ :=
        treapMerge_spec (rounds h) op₂ works.clean front back (by unfold rounds; omega)
      refine ⟨.published h₃ op₃ whole.root, ?_, .published (works.trans works₃) kept₃
        (balanced.trans balanced₃) ?_⟩
      · simp only [treapDelete, if_neg empty, split, without, Option.bind_eq_bind, Option.bind_some, holds,
          if_true, joined, Option.pure_def]
      · rw [plain₃, plainL, plain]
        simp only [updated, Treap.withoutMin, holds, if_true]
    · obtain ⟨outcome, done, good⟩ := discard_good tree clean works
      refine ⟨outcome, ?_, ?_⟩
      · simp only [treapDelete, if_neg empty, split, without, Option.bind_eq_bind, Option.bind_some,
          Bool.eq_false_iff.mpr holds, Bool.false_eq_true, if_false, done]
      · simpa only [updated, Bool.eq_false_iff.mpr holds, Bool.false_eq_true, if_false] using good

theorem cutLow_spec (first : List UInt8) {tree : Addressed} {fuel : Nat} {h : Heap} (op : TreapOp)
    (clean : Clean h) (stored : Stored h.cells tree) (enough : tree.ids.length ≤ fuel) :
    ∃ h' op' l m, cutLow fuel h op tree.root first = some (h', op', l.root, m.root) ∧
      Works h h' op op' ∧ Stored h'.cells l ∧ Stored h'.cells m ∧
      Balanced op op' tree.ids (l.ids ++ m.ids) ∧ l.ids.length + m.ids.length = tree.ids.length ∧
      (l.plain, m.plain) = if first = [] then (.nil, tree.plain) else Treap.treapSplit first tree.plain := by
  by_cases bound : first = []
  · refine ⟨h, op, .nil, tree, ?_, Works.refl clean op, trivial, stored, fun _ => rfl, Nat.zero_add _, ?_⟩
    · rw [cutLow, if_pos bound]
      rfl
    · rw [if_pos bound]
      rfl
  · obtain ⟨h', op', l, r, split, works, front, back, balanced, plainL, plainR⟩ :=
      treapSplit_spec first op clean stored enough
    refine ⟨h', op', l, r, ?_, works, front, back, balanced, split_lengths plainL plainR, ?_⟩
    · rw [cutLow, if_neg bound, split]
    · rw [if_neg bound, plainL, plainR]

theorem cutHigh_spec (last : List UInt8) {tree : Addressed} {fuel : Nat} {h : Heap} (op : TreapOp)
    (clean : Clean h) (stored : Stored h.cells tree) (enough : tree.ids.length ≤ fuel) :
    ∃ h' op' m r, cutHigh fuel h op tree.root last = some (h', op', m.root, r.root) ∧
      Works h h' op op' ∧ Stored h'.cells m ∧ Stored h'.cells r ∧
      Balanced op op' tree.ids (m.ids ++ r.ids) ∧ m.ids.length + r.ids.length = tree.ids.length ∧
      (m.plain, r.plain) = if last = [] then (tree.plain, .nil) else Treap.treapSplit last tree.plain := by
  by_cases bound : last = []
  · refine ⟨h, op, tree, .nil, ?_, Works.refl clean op, stored, trivial, fun _ => ?_, Nat.add_zero _, ?_⟩
    · rw [cutHigh, if_pos bound]
      rfl
    · simp [ids]
    · rw [if_pos bound]
      rfl
  · obtain ⟨h', op', m, r, split, works, front, back, balanced, plainL, plainR⟩ :=
      treapSplit_spec last op clean stored enough
    refine ⟨h', op', m, r, ?_, works, front, back, balanced, split_lengths plainL plainR, ?_⟩
    · rw [cutHigh, if_neg bound, split]
    · rw [if_neg bound, plainL, plainR]

theorem treapDeleteRange_good (seed : UInt64) {h : Heap} {tree : Addressed} (clean : Clean h)
    (sits : Sits h tree) (first last : List UInt8) :
    ∃ outcome, treapDeleteRange h tree.root first last = some outcome ∧
      Good h tree (updated seed tree.plain (.deleteRange first last)) outcome := by
  have short := sits.length_le clean
  obtain ⟨h₁, op₁, l, m, low, works₁, front, middle, balanced₁, sizes₁, plain₁⟩ :=
    cutLow_spec first startOp clean sits.stored (show tree.ids.length ≤ rounds h by unfold rounds; omega)
  obtain ⟨h₂, op₂, m', r, high, works₂, middle', back, balanced₂, sizes₂, plain₂⟩ :=
    cutHigh_spec last op₁ works₁.clean middle (show m.ids.length ≤ rounds h by unfold rounds; omega)
  obtain ⟨removed, retired, same⟩ := pushFreeTree_spec middle' (show m'.ids.length ≤ rounds h by unfold rounds; omega)
  have works := (works₁.trans works₂).retire removed
  obtain ⟨h₃, op₃, whole, joined, works₃, kept₃, balanced₃, plain₃⟩ :=
    treapMerge_spec (rounds h) { op₂ with free := op₂.free ++ removed } works.clean
      (works₂.stored works₁.clean front) back (by unfold rounds; omega)
  refine ⟨.published h₃ op₃ whole.root, ?_, .published (works.trans works₃) kept₃ ?_ ?_⟩
  · simp only [treapDeleteRange, low, high, Option.bind_eq_bind, Option.bind_some, retired, joined,
      Option.pure_def]
  · intro id
    have one := balanced₁ id
    have two := balanced₂ id
    have three := balanced₃ id
    have all := same id
    simp only [List.count_append] at one two three ⊢
    omega
  · have parts : Treap.rangeParts tree.plain first last = (l.plain, m'.plain, r.plain) := by
      unfold Treap.rangeParts
      rw [← plain₁]
      dsimp only
      rw [← plain₂]
    rw [plain₃]
    simp only [updated, parts]

theorem applyUpdate_good (seed : UInt64) {h : Heap} {tree : Addressed} (clean : Clean h) (sits : Sits h tree)
    (update : Update) :
    ∃ outcome, applyUpdate seed h tree.root update = some outcome ∧
      Good h tree (updated seed tree.plain update) outcome := by
  cases update with
  | set key value => exact treapSet_good seed clean sits key value
  | delete key => exact treapDelete_good seed clean sits key
  | deleteRange first last => exact treapDeleteRange_good seed clean sits first last

/-! ## Trees, forks and views -/

/-- A root and the retired nodes that wait, as `treap_state` has them. -/
structure TreapState where
  root : Option Nat
  pending : List Nat

/-- An open fork: its root and what its operations cloned and retired. -/
structure Fork where
  root : Option Nat
  op : TreapOp

/-- A tree with its captured view and its open fork, and the addresses released so far. -/
structure State where
  heap : Heap
  live : TreapState
  snap : TreapState
  fork : Option Fork
  freed : List Nat

def start : State := ⟨⟨fun _ => none, 0⟩, ⟨none, []⟩, ⟨none, []⟩, none, []⟩

/-- The root that updates work on. -/
def current (s : State) : Option Nat :=
  match s.fork with
  | none => s.live.root
  | some fork => fork.root

/-- A fork collects clones and retired nodes; otherwise the retired nodes wait in front of those
that wait already. -/
def treapPublishOp (s : State) : Outcome → State
  | .published h op root =>
    match s.fork with
    | none => { s with heap := h, live := ⟨root, op.free ++ s.live.pending⟩ }
    | some fork =>
      { s with heap := h, fork := some ⟨root, ⟨op.alloc ++ fork.op.alloc, fork.op.free ++ op.free⟩⟩ }
  | .discarded h released => { s with heap := h, freed := s.freed ++ released }

def treapCapture (s : State) : State :=
  { s with snap := ⟨s.live.root, s.snap.pending ++ s.live.pending⟩, live := { s.live with pending := [] } }

def treapSaveFinish (s : State) : Option State :=
  (releaseAll s.snap.pending s.heap).map (fun h =>
    { s with heap := h, snap := ⟨none, []⟩, freed := s.freed ++ s.snap.pending })

def treapAbort (s : State) (fork : Fork) : Option State :=
  (releaseAll fork.op.alloc s.heap).map (fun h =>
    { s with heap := h, fork := none, freed := s.freed ++ fork.op.alloc })

def treapCommit (s : State) (fork : Fork) : State :=
  { s with live := ⟨fork.root, fork.op.free ++ s.live.pending⟩, fork := none }

/-- One call; `none` is a read or a release of a node that is not allocated. -/
def step (seed : UInt64) (s : State) : Call → Option State
  | .work (.update update) => (applyUpdate seed s.heap (current s) update).map (treapPublishOp s)
  | .work .capture => some (treapCapture s)
  | .work .saveFinish => treapSaveFinish s
  | .fork =>
    match s.fork with
    | none => some { s with fork := some ⟨s.live.root, startOp⟩ }
    | some _ => some s
  | .commit =>
    match s.fork with
    | none => some s
    | some fork => some (treapCommit s fork)
  | .abort =>
    match s.fork with
    | none => some s
    | some fork => treapAbort s fork

def run (seed : UInt64) (calls : List Call) : Option State := calls.foldlM (step seed) start

/-- The entries that a root leads to. -/
def contents (s : State) (root : Option Nat) : Option (List Entry) := savedEntries (rounds s.heap) s.heap root

/-- The writes of a save: the captured entries, then a zero key length. -/
def treapSave (s : State) : Option (List (List UInt8)) :=
  (contents s s.snap.root).map (fun saved => saved.flatMap Stream.entryWrites ++ [leBytes 4 0])

/-! ## What every run keeps -/

/-- One for an allocated address. -/
def used (h : Heap) (id : Nat) : Nat := if (h.cells id).isSome then 1 else 0

/-- The chains of the open fork. -/
def forkOp (s : State) : TreapOp := (s.fork.map Fork.op).getD startOp

/-- The trees behind the roots, and where every address is. The fork's clones are beside the nodes
of the tree until the fork is committed. -/
structure Kept (s : State) (live snap tree : Addressed) : Prop where
  clean : Clean s.heap
  liveRoot : s.live.root = live.root
  snapRoot : s.snap.root = snap.root
  treeRoot : current s = tree.root
  liveStored : Stored s.heap.cells live
  snapStored : Stored s.heap.cells snap
  snapOnce : ∀ id, snap.ids.count id ≤ 1
  treeStored : Stored s.heap.cells tree
  unforked : s.fork = none → tree = live
  held : ∀ id ∈ snap.ids, id ∈ live.ids ∨ id ∈ s.live.pending
  worked : ∀ id, tree.ids.count id + (forkOp s).free.count id = live.ids.count id + (forkOp s).alloc.count id
  placed : ∀ id, live.ids.count id + s.live.pending.count id + s.snap.pending.count id +
    (forkOp s).alloc.count id = used s.heap id
  freed : ∀ id, s.freed.count id + used s.heap id = if id < s.heap.next then 1 else 0

theorem used_le (h : Heap) (id : Nat) : used h id ≤ 1 := by
  unfold used
  split <;> omega

theorem used_clean {h : Heap} (clean : Clean h) {id : Nat} (past : h.next ≤ id) : used h id = 0 := by
  simp [used, clean id past]

theorem used_works {h h' : Heap} {op op' : TreapOp} (clean : Clean h) (works : Works h h' op op') (id : Nat) :
    used h' id = used h id + if h.next ≤ id ∧ id < h'.next then 1 else 0 := by
  by_cases old : id < h.next
  · rw [if_neg (by omega)]
    simp [used, works.same id old]
  · have past := Nat.not_lt.mp old
    rw [used_clean clean past]
    unfold used
    by_cases early : id < h'.next
    · rw [if_pos ((works.fresh id past).mpr early), if_pos ⟨past, early⟩]
    · rw [if_neg (fun allocated => early ((works.fresh id past).mp allocated)), if_neg (fun both => early both.2)]

theorem Kept.sits {s : State} {live snap tree : Addressed} (kept : Kept s live snap tree) :
    Sits s.heap tree where
  stored := kept.treeStored
  once id := by
    have worked := kept.worked id
    have placed := kept.placed id
    have bound := used_le s.heap id
    omega

theorem Kept.liveOnce {s : State} {live snap tree : Addressed} (kept : Kept s live snap tree) (id : Nat) :
    live.ids.count id ≤ 1 := by
  have placed := kept.placed id
  have bound := used_le s.heap id
  omega

theorem kept_start : Kept start .nil .nil .nil where
  clean _ _ := rfl
  liveRoot := rfl
  snapRoot := rfl
  treeRoot := rfl
  liveStored := trivial
  snapStored := trivial
  snapOnce _ := Nat.zero_le _
  treeStored := trivial
  unforked _ := rfl
  held := nofun
  worked _ := rfl
  placed _ := rfl
  freed id := by simp [start, used]

/-- An update that changes nothing only hands out addresses and releases them. -/
theorem kept_discarded {s : State} {live snap tree : Addressed} (kept : Kept s live snap tree) {h' : Heap}
    {released : List Nat} (same : h'.cells = s.heap.cells) (next : s.heap.next ≤ h'.next)
    (once : ∀ id, released.count id = if s.heap.next ≤ id ∧ id < h'.next then 1 else 0) :
    Kept (treapPublishOp s (.discarded h' released)) live snap tree := by
  have sameUsed : ∀ id, used h' id = used s.heap id := fun id => by simp only [used, same]
  constructor
  · intro id past
    change h'.cells id = none
    rw [same]
    exact kept.clean id (Nat.le_trans next past)
  · exact kept.liveRoot
  · exact kept.snapRoot
  · exact kept.treeRoot
  · exact same ▸ kept.liveStored
  · exact same ▸ kept.snapStored
  · exact kept.snapOnce
  · exact same ▸ kept.treeStored
  · exact kept.unforked
  · exact kept.held
  · exact kept.worked
  · intro id
    exact (kept.placed id).trans (sameUsed id).symm
  · intro id
    have law := kept.freed id
    have handed := once id
    change (s.freed ++ released).count id + used h' id = if id < h'.next then 1 else 0
    rw [sameUsed, List.count_append]
    by_cases early : id < h'.next
    · rw [if_pos early]
      split at handed <;> split at law <;> omega
    · rw [if_neg early]
      split at handed <;> split at law <;> omega

/-- Addresses that are handed out are allocated. -/
theorem Kept.freed_works {s : State} {live snap tree : Addressed} (kept : Kept s live snap tree) {h' : Heap}
    {op op' : TreapOp} (works : Works s.heap h' op op') (id : Nat) :
    s.freed.count id + used h' id = if id < h'.next then 1 else 0 := by
  have law := kept.freed id
  have more := used_works kept.clean works id
  have wider := works.next
  split at more <;> split at law <;> split <;> omega

/-- Without a fork the new tree takes the old one's place, and what was retired waits: the view is
still in the tree or waiting. -/
theorem kept_published {s : State} {live snap tree after : Addressed} (kept : Kept s live snap tree)
    (unforked : s.fork = none) {h' : Heap} {op : TreapOp} (works : Works s.heap h' startOp op)
    (stored : Stored h'.cells after) (balanced : Balanced startOp op tree.ids after.ids) :
    Kept (treapPublishOp s (.published h' op after.root)) after snap after := by
  obtain ⟨heap, live₀, snap₀, fork, freed⟩ := s
  cases unforked
  cases kept.unforked rfl
  have grown := used_works kept.clean works
  refine ⟨works.clean, rfl, kept.snapRoot, rfl, stored, works.stored kept.clean kept.snapStored,
    kept.snapOnce, stored, fun _ => rfl, ?_, fun _ => rfl, ?_, kept.freed_works works⟩
  · intro id inside
    have law := balanced id
    have allocated := works.alloc id
    have old := kept.snapStored.lt_next kept.clean inside
    have before := kept.held id inside
    dsimp only [treapPublishOp] at before old allocated ⊢
    rw [List.mem_append]
    rw [if_neg (by omega)] at allocated
    rcases before with there | waits
    · have some := List.count_pos_iff.mpr there
      by_cases stays : id ∈ after.ids
      · exact .inl stays
      · rw [← List.count_eq_zero] at stays
        simp only [startOp, List.count_nil] at law allocated
        exact .inr (.inl (List.count_pos_iff.mp (by omega)))
    · exact .inr (.inr waits)
  · intro id
    have law := balanced id
    have placed := kept.placed id
    have more := grown id
    have allocated := works.alloc id
    simp only [treapPublishOp, forkOp, startOp, Option.map_none, Option.getD_none, List.count_append,
      List.count_nil] at law placed more allocated ⊢
    omega

/-- On a fork the clones and the retired nodes are collected; the tree itself stays. -/
theorem kept_forked {s : State} {live snap tree after : Addressed} (kept : Kept s live snap tree)
    {fork : Fork} (forked : s.fork = some fork) {h' : Heap} {op : TreapOp}
    (works : Works s.heap h' startOp op) (stored : Stored h'.cells after)
    (balanced : Balanced startOp op tree.ids after.ids) :
    Kept (treapPublishOp s (.published h' op after.root)) live snap after := by
  obtain ⟨heap, live₀, snap₀, _, freed⟩ := s
  cases forked
  have grown := used_works kept.clean works
  refine ⟨works.clean, kept.liveRoot, kept.snapRoot, rfl, works.stored kept.clean kept.liveStored,
    works.stored kept.clean kept.snapStored, kept.snapOnce, stored, nofun, kept.held, ?_, ?_,
    kept.freed_works works⟩
  · intro id
    have law := balanced id
    have worked := kept.worked id
    simp only [treapPublishOp, forkOp, startOp, Option.map_some, Option.getD_some, List.count_append,
      List.count_nil] at law worked ⊢
    omega
  · intro id
    have placed := kept.placed id
    have more := grown id
    have allocated := works.alloc id
    simp only [treapPublishOp, forkOp, startOp, Option.map_some, Option.getD_some, List.count_append,
      List.count_nil] at placed more allocated ⊢
    omega

/-- An update leaves the view and, on a fork, the tree itself as they are. -/
theorem kept_update {s : State} {live snap tree : Addressed} (kept : Kept s live snap tree)
    {expected : Nodes} {outcome : Outcome} (good : Good s.heap tree expected outcome) :
    ∃ live' tree', Kept (treapPublishOp s outcome) live' snap tree' ∧ tree'.plain = expected ∧
      (s.fork ≠ none → live' = live) := by
  cases good with
  | discarded same next released plain =>
    exact ⟨live, tree, kept_discarded kept same next released, plain, fun _ => rfl⟩
  | published works stored balanced plain =>
    cases forked : s.fork with
    | none => exact ⟨_, _, kept_published kept forked works stored balanced, plain, fun busy => absurd rfl busy⟩
    | some fork => exact ⟨live, _, kept_forked kept forked works stored balanced, plain, fun _ => rfl⟩

/-- A chain of different allocated nodes that no tree holds is released. -/
theorem released_chain {h : Heap} {chain : List Nat} (once : ∀ id, chain.count id ≤ used h id) :
    ∃ h', releaseAll chain h = some h' ∧ h'.next = h.next ∧
      (∀ id, h'.cells id = if id ∈ chain then none else h.cells id) ∧
      ∀ id, used h' id + chain.count id = used h id := by
  have allocated : ∀ id ∈ chain, (h.cells id).isSome = true := fun id inside => by
    have bound := once id
    have some := List.count_pos_iff.mpr inside
    by_contra missing
    rw [used, if_neg missing] at bound
    omega
  obtain ⟨h', done, next, cells⟩ := @releaseAll_spec chain h
    (fun id => Nat.le_trans (once id) (used_le h id)) allocated
  refine ⟨h', done, next, cells, fun id => ?_⟩
  by_cases inside : id ∈ chain
  · have bound := once id
    have some := List.count_pos_iff.mpr inside
    have limit := used_le h id
    have gone : used h' id = 0 := by simp [used, cells id, inside]
    omega
  · have same : used h' id = used h id := by simp [used, cells id, inside]
    rw [same, List.count_eq_zero.mpr inside, Nat.add_zero]

theorem Stored.released {h h' : Heap} {chain : List Nat} {tree : Addressed} (stored : Stored h.cells tree)
    (cells : ∀ id, h'.cells id = if id ∈ chain then none else h.cells id) (apart : ∀ id ∈ tree.ids, id ∉ chain) :
    Stored h'.cells tree :=
  stored.frame fun id inside => by rw [cells id, if_neg (apart id inside)]

theorem clean_released {h h' : Heap} {chain : List Nat} (clean : Clean h) (next : h'.next = h.next)
    (cells : ∀ id, h'.cells id = if id ∈ chain then none else h.cells id) : Clean h' := by
  intro id past
  rw [cells id, clean id (next ▸ past)]
  split <;> rfl

/-- A node of the view is in the tree or waits behind it. -/
theorem Kept.view_apart {s : State} {live snap tree : Addressed} (kept : Kept s live snap tree) {id : Nat}
    (gone : live.ids.count id = 0) (still : s.live.pending.count id = 0) : id ∉ snap.ids := by
  intro inside
  rcases kept.held id inside with there | there
  · exact List.count_eq_zero.mp gone there
  · exact List.count_eq_zero.mp still there

/-- The nodes that wait with the view are in no tree. -/
theorem Kept.pending_apart {s : State} {live snap tree : Addressed} (kept : Kept s live snap tree) {id : Nat}
    (waits : id ∈ s.snap.pending) : id ∉ live.ids ∧ id ∉ snap.ids ∧ id ∉ tree.ids := by
  have some := List.count_pos_iff.mpr waits
  have placed := kept.placed id
  have worked := kept.worked id
  have bound := used_le s.heap id
  have gone : live.ids.count id = 0 := by omega
  exact ⟨List.count_eq_zero.mp gone, kept.view_apart gone (by omega), List.count_eq_zero.mp (by omega)⟩

/-- The clones of an open fork are not in the tree and not in the view. -/
theorem Kept.clones_apart {s : State} {live snap tree : Addressed} (kept : Kept s live snap tree) {id : Nat}
    (cloned : id ∈ (forkOp s).alloc) : id ∉ live.ids ∧ id ∉ snap.ids := by
  have some := List.count_pos_iff.mpr cloned
  have placed := kept.placed id
  have bound := used_le s.heap id
  have gone : live.ids.count id = 0 := by omega
  exact ⟨List.count_eq_zero.mp gone, kept.view_apart gone (by omega)⟩

theorem kept_capture {s : State} {live snap tree : Addressed} (kept : Kept s live snap tree) :
    Kept (treapCapture s) live live tree where
  clean := kept.clean
  liveRoot := kept.liveRoot
  snapRoot := kept.liveRoot
  treeRoot := kept.treeRoot
  liveStored := kept.liveStored
  snapStored := kept.liveStored
  snapOnce := kept.liveOnce
  treeStored := kept.treeStored
  unforked := kept.unforked
  held _ inside := .inl inside
  worked := kept.worked
  placed id := by
    have placed := kept.placed id
    change live.ids.count id + [].count id + (s.snap.pending ++ s.live.pending).count id +
      (forkOp s).alloc.count id = used s.heap id
    rw [List.count_append, List.count_nil]
    omega
  freed := kept.freed

theorem kept_saveFinish {s : State} {live snap tree : Addressed} (kept : Kept s live snap tree) :
    ∃ s', treapSaveFinish s = some s' ∧ Kept s' live .nil tree := by
  have once : ∀ id, s.snap.pending.count id ≤ used s.heap id := fun id => by
    have placed := kept.placed id
    omega
  obtain ⟨h, done, next, cells, balance⟩ := released_chain once
  refine ⟨{ s with heap := h, snap := ⟨none, []⟩, freed := s.freed ++ s.snap.pending },
    by rw [treapSaveFinish, done, Option.map_some], ?_⟩
  constructor
  · exact clean_released kept.clean next cells
  · exact kept.liveRoot
  · rfl
  · exact kept.treeRoot
  · exact Stored.released kept.liveStored cells fun id inside waits => (kept.pending_apart waits).1 inside
  · trivial
  · exact fun _ => Nat.zero_le _
  · exact Stored.released kept.treeStored cells fun id inside waits => (kept.pending_apart waits).2.2 inside
  · exact kept.unforked
  · exact nofun
  · exact kept.worked
  · intro id
    have placed := kept.placed id
    have left := balance id
    change live.ids.count id + s.live.pending.count id + [].count id + (forkOp s).alloc.count id = used h id
    rw [List.count_nil]
    omega
  · intro id
    have law := kept.freed id
    have left := balance id
    change (s.freed ++ s.snap.pending).count id + used h id = if id < h.next then 1 else 0
    rw [List.count_append, next]
    omega

theorem kept_abort {s : State} {live snap tree : Addressed} (kept : Kept s live snap tree) {fork : Fork}
    (forked : s.fork = some fork) : ∃ s', treapAbort s fork = some s' ∧ Kept s' live snap live := by
  have op : forkOp s = fork.op := by simp [forkOp, forked]
  have once : ∀ id, fork.op.alloc.count id ≤ used s.heap id := fun id => by
    have placed := kept.placed id
    rw [op] at placed
    omega
  obtain ⟨h, done, next, cells, balance⟩ := released_chain once
  refine ⟨{ s with heap := h, fork := none, freed := s.freed ++ fork.op.alloc },
    by rw [treapAbort, done, Option.map_some], ?_⟩
  have liveStored := Stored.released kept.liveStored cells
    (fun id inside cloned => (kept.clones_apart (op ▸ cloned)).1 inside)
  constructor
  · exact clean_released kept.clean next cells
  · exact kept.liveRoot
  · exact kept.snapRoot
  · exact kept.liveRoot
  · exact liveStored
  · exact Stored.released kept.snapStored cells fun id inside cloned => (kept.clones_apart (op ▸ cloned)).2 inside
  · exact kept.snapOnce
  · exact liveStored
  · exact fun _ => rfl
  · exact kept.held
  · exact fun _ => rfl
  · intro id
    have placed := kept.placed id
    have left := balance id
    rw [op] at placed
    change live.ids.count id + s.live.pending.count id + s.snap.pending.count id + [].count id = used h id
    rw [List.count_nil]
    omega
  · intro id
    have law := kept.freed id
    have left := balance id
    change (s.freed ++ fork.op.alloc).count id + used h id = if id < h.next then 1 else 0
    rw [List.count_append, next]
    omega

theorem kept_commit {s : State} {live snap tree : Addressed} (kept : Kept s live snap tree) {fork : Fork}
    (forked : s.fork = some fork) : Kept (treapCommit s fork) tree snap tree := by
  have op : forkOp s = fork.op := by simp [forkOp, forked]
  have root : fork.root = tree.root := by
    have same := kept.treeRoot
    rwa [current, forked] at same
  constructor
  · exact kept.clean
  · exact root
  · exact kept.snapRoot
  · exact root
  · exact kept.treeStored
  · exact kept.snapStored
  · exact kept.snapOnce
  · exact kept.treeStored
  · exact fun _ => rfl
  · intro id inside
    change id ∈ tree.ids ∨ id ∈ fork.op.free ++ s.live.pending
    rw [List.mem_append]
    rcases kept.held id inside with there | there
    · have worked := kept.worked id
      have some := List.count_pos_iff.mpr there
      rw [op] at worked
      by_cases stays : id ∈ tree.ids
      · exact .inl stays
      · rw [← List.count_eq_zero] at stays
        exact .inr (.inl (List.count_pos_iff.mp (by omega)))
    · exact .inr (.inr there)
  · exact fun _ => rfl
  · intro id
    have placed := kept.placed id
    have worked := kept.worked id
    rw [op] at placed worked
    change tree.ids.count id + (fork.op.free ++ s.live.pending).count id + s.snap.pending.count id +
      [].count id = used s.heap id
    rw [List.count_append, List.count_nil]
    omega
  · exact kept.freed

/-- The view after a call. -/
def viewAfter (live snap : Addressed) : Call → Addressed
  | .work .capture => live
  | .work .saveFinish => .nil
  | _ => snap

/-- An update in memory is the update of the tree as a value. -/
theorem updated_eq (t : Sized.SizedTree) (update : Update) :
    updated t.seed (Sized.plain t.root) update = Sized.plain (OrderedMap.applyUpdate t update).root ∧
      (OrderedMap.applyUpdate t update).seed = t.seed := by
  cases update with
  | set key value =>
    change _ = Sized.plain ((Sized.treapSet t key value).getD t).root ∧ ((Sized.treapSet t key value).getD t).seed = _
    cases done : Sized.treapSet t key value with
    | none =>
      have refused : treapNodeInit t.seed key value = none := Option.map_eq_none_iff.mp done
      simp only [updated, refused, Option.getD_none, and_self]
    | some after =>
      obtain ⟨entry, made, seeded, shape⟩ := RangeProofs.treapSet_plain done
      simp only [updated, made, Option.getD_some, shape, seeded, and_self]
  | delete key =>
    change _ = Sized.plain (((Sized.treapDelete t key).map Prod.fst).getD t).root ∧
      (((Sized.treapDelete t key).map Prod.fst).getD t).seed = _
    cases done : Sized.treapDelete t key with
    | none =>
      have empty : key = [] := by
        unfold Sized.treapDelete at done
        split at done
        · assumption
        · dsimp only at done
          split at done <;> cases done
      simp only [updated, empty, holdsAtMin_empty, Bool.false_eq_true, if_false, Option.map_none,
        Option.getD_none, and_self]
    | some result =>
      obtain ⟨after, found⟩ := result
      simp only [Option.map_some, Option.getD_some]
      rcases RangeProofs.treapDelete_plain done with ⟨holds, seeded, -, -, shape⟩ | ⟨missing, rfl⟩
      · simp only [updated, holds, if_true, shape, seeded, and_self]
      · simp only [updated, missing, Bool.false_eq_true, if_false, and_self]
  | deleteRange first last =>
    obtain ⟨left, -, right⟩ := RangeProofs.rangeParts_plain t.root first last
    refine ⟨?_, rfl⟩
    change _ = Sized.plain (Sized.treapMerge (Sized.rangeParts t.root first last).1
      (Sized.rangeParts t.root first last).2.2)
    rw [Sized.treapMerge_plain, left, right]
    rfl

/-- The trees in memory are the trees of a session that is a value. -/
structure Mirrors (seed : UInt64) (s : State) (live tree : Addressed) (session : OrderedMap.Session) : Prop where
  live : live.plain = Sized.plain session.live.root
  seeded : session.live.seed = seed
  unforked : s.fork = none → session.fork = none
  forked : s.fork ≠ none → ∃ copy, session.fork = some copy ∧ tree.plain = Sized.plain copy.root ∧ copy.seed = seed

theorem mirrors_update {seed : UInt64} {s : State} {live tree live' tree' snap : Addressed}
    {session : OrderedMap.Session} {update : Update} {outcome : Outcome} (kept : Kept s live snap tree)
    (mirrors : Mirrors seed s live tree session) (after : Kept (treapPublishOp s outcome) live' snap tree')
    (plain : tree'.plain = updated seed tree.plain update) (beside : s.fork ≠ none → live' = live) :
    Mirrors seed (treapPublishOp s outcome) live' tree' (OrderedMap.doWork session (.update update)) := by
  have forks : (treapPublishOp s outcome).fork = none ↔ s.fork = none := by
    cases outcome with
    | published h op root =>
      unfold treapPublishOp
      cases forked : s.fork with
      | none => simp
      | some fork => simp
    | discarded h released => rfl
  obtain ⟨same, seeded, unforked, forked⟩ := mirrors
  by_cases idle : s.fork = none
  · have alone := unforked idle
    have here := kept.unforked idle
    have there := after.unforked (forks.mpr idle)
    subst here there
    obtain ⟨value, seed'⟩ := updated_eq session.live update
    have result : OrderedMap.doWork session (.update update) =
        { session with live := OrderedMap.applyUpdate session.live update } := by
      simp only [OrderedMap.doWork, alone]
    rw [result]
    refine ⟨?_, seed'.trans seeded, fun _ => alone, fun busy => absurd (forks.mpr idle) busy⟩
    rw [plain, same, ← seeded]
    exact value
  · obtain ⟨copy, taken, shape, seed'⟩ := forked idle
    cases beside idle
    obtain ⟨value, seed''⟩ := updated_eq copy update
    have result : OrderedMap.doWork session (.update update) =
        { session with fork := some (OrderedMap.applyUpdate copy update) } := by
      simp only [OrderedMap.doWork, taken]
    rw [result]
    refine ⟨same, seeded, fun done => absurd (forks.mp done) idle, fun _ => ⟨_, rfl, ?_, seed''.trans seed'⟩⟩
    rw [plain, shape, ← seed']
    exact value

/-- No call reads or releases a node that is not there, and the trees stay those of the values. -/
theorem kept_step (seed : UInt64) {s : State} {live snap tree : Addressed} {session : OrderedMap.Session}
    (kept : Kept s live snap tree) (mirrors : Mirrors seed s live tree session) (call : Call) :
    ∃ s' live' tree', step seed s call = some s' ∧ Kept s' live' (viewAfter live snap call) tree' ∧
      Mirrors seed s' live' tree' (OrderedMap.step session call) := by
  cases call with
  | work work =>
    cases work with
    | update update =>
      obtain ⟨outcome, done, good⟩ := applyUpdate_good seed kept.clean kept.sits update
      obtain ⟨live', tree', after, plain, beside⟩ := kept_update kept good
      refine ⟨treapPublishOp s outcome, live', tree', ?_, after, mirrors_update kept mirrors after plain beside⟩
      rw [step, kept.treeRoot, done, Option.map_some]
    | capture =>
      exact ⟨treapCapture s, live, tree, rfl, kept_capture kept,
        ⟨mirrors.live, mirrors.seeded, mirrors.unforked, mirrors.forked⟩⟩
    | saveFinish =>
      obtain ⟨s', done, after⟩ := kept_saveFinish kept
      refine ⟨s', live, tree, done, after, ?_⟩
      obtain ⟨h, -, rfl⟩ := Option.map_eq_some_iff.mp done
      exact ⟨mirrors.live, mirrors.seeded, mirrors.unforked, mirrors.forked⟩
  | fork =>
    cases forked : s.fork with
    | none =>
      cases kept.unforked forked
      have alone := mirrors.unforked forked
      refine ⟨{ s with fork := some ⟨s.live.root, startOp⟩ }, live, live, by simp [step, forked], ?_, ?_⟩
      · have op : forkOp s = startOp := by simp [forkOp, forked]
        have worked := kept.worked
        have placed := kept.placed
        rw [op] at worked placed
        exact ⟨kept.clean, kept.liveRoot, kept.snapRoot, kept.liveRoot, kept.liveStored, kept.snapStored,
          kept.snapOnce, kept.treeStored, nofun, kept.held, worked, placed, kept.freed⟩
      · have result : OrderedMap.step session .fork =
            { session with fork := some (Sized.treapFork session.live) } := by
          simp only [OrderedMap.step, alone]
        rw [result]
        exact ⟨mirrors.live, mirrors.seeded, nofun, fun _ => ⟨_, rfl, mirrors.live, mirrors.seeded⟩⟩
    | some fork =>
      obtain ⟨copy, taken, -, -⟩ := mirrors.forked (by simp [forked])
      have result : OrderedMap.step session .fork = session := by simp only [OrderedMap.step, taken]
      exact ⟨s, live, tree, by simp [step, forked], kept, by rw [result]; exact mirrors⟩
  | commit =>
    cases forked : s.fork with
    | none =>
      have result : OrderedMap.step session .commit = session := by
        simp only [OrderedMap.step, mirrors.unforked forked]
      exact ⟨s, live, tree, by simp [step, forked], kept, by rw [result]; exact mirrors⟩
    | some fork =>
      obtain ⟨copy, taken, shape, seed'⟩ := mirrors.forked (by simp [forked])
      refine ⟨treapCommit s fork, tree, tree, by simp [step, forked], kept_commit kept forked, ?_⟩
      have result : OrderedMap.step session .commit =
          { session with live := Sized.treapCommit copy session.live, fork := none } := by
        simp only [OrderedMap.step, taken]
      rw [result]
      exact ⟨shape, mirrors.seeded, fun _ => rfl, fun busy => absurd rfl busy⟩
  | abort =>
    cases forked : s.fork with
    | none =>
      have result : OrderedMap.step session .abort = session := by
        have alone := mirrors.unforked forked
        obtain ⟨tree₀, copy, view⟩ := session
        dsimp only at alone
        rw [alone]
        rfl
      exact ⟨s, live, tree, by simp [step, forked], kept, by rw [result]; exact mirrors⟩
    | some fork =>
      obtain ⟨s', done, after⟩ := kept_abort kept forked
      refine ⟨s', live, live, by simp [step, forked, done], after, ?_⟩
      obtain ⟨h, -, rfl⟩ := Option.map_eq_some_iff.mp done
      exact ⟨mirrors.live, mirrors.seeded, fun _ => rfl, fun busy => absurd rfl busy⟩

theorem kept_calls (seed : UInt64) (calls : List Call) {s : State} {live snap tree : Addressed}
    (session : OrderedMap.Session) (kept : Kept s live snap tree) (mirrors : Mirrors seed s live tree session) :
    ∃ s' live' snap' tree', calls.foldlM (step seed) s = some s' ∧ Kept s' live' snap' tree' ∧
      Mirrors seed s' live' tree' (calls.foldl OrderedMap.step session) ∧
      ((∀ call ∈ calls, call ≠ .work .capture ∧ call ≠ .work .saveFinish) → snap' = snap) := by
  induction calls generalizing s live snap tree session with
  | nil => exact ⟨s, live, snap, tree, rfl, kept, mirrors, fun _ => rfl⟩
  | cons call calls ih =>
    obtain ⟨s₁, live₁, tree₁, done, kept₁, mirrors₁⟩ := kept_step seed kept mirrors call
    obtain ⟨s₂, live₂, snap₂, tree₂, rest, kept₂, mirrors₂, same⟩ := ih _ kept₁ mirrors₁
    refine ⟨s₂, live₂, snap₂, tree₂, ?_, kept₂, mirrors₂, fun others => ?_⟩
    · rw [List.foldlM_cons, done]
      exact rest
    · obtain ⟨first, second⟩ := others call List.mem_cons_self
      rw [same fun other later => others other (List.mem_cons_of_mem _ later)]
      unfold viewAfter
      split
      · exact absurd rfl first
      · exact absurd rfl second
      · rfl

/-! ## What is reached and what is released -/

/-- An address that the pointers lead to from a root. -/
inductive Reach (cells : Nat → Option Cell) : Option Nat → Nat → Prop where
  | here {id : Nat} {cell : Cell} : cells id = some cell → Reach cells (some id) id
  | left {id other : Nat} {cell : Cell} : cells id = some cell → Reach cells cell.left other →
    Reach cells (some id) other
  | right {id other : Nat} {cell : Cell} : cells id = some cell → Reach cells cell.right other →
    Reach cells (some id) other

theorem reach_iff {cells : Nat → Option Cell} {tree : Addressed} (stored : Stored cells tree) (id : Nat) :
    Reach cells tree.root id ↔ id ∈ tree.ids := by
  induction tree with
  | nil =>
    constructor
    · intro reach
      cases reach
    · exact nofun
  | node here left entry right ihl ihr =>
    obtain ⟨cell, lower, upper⟩ := stored
    simp only [root_node, ids, List.mem_append, List.mem_cons]
    rw [← ihl lower, ← ihr upper]
    constructor
    · intro reach
      cases reach with
      | here found => exact .inr (.inl rfl)
      | left found below =>
        rw [cell] at found
        cases found
        exact .inl below
      | right found below =>
        rw [cell] at found
        cases found
        exact .inr (.inr below)
    · rintro (low | rfl | high)
      · exact .left cell low
      · exact .here cell
      · exact .right cell high

/-- Where the nodes are. A retired node waits in one list until it is released, and it is released
once; nothing that a root leads to has been released. -/
structure Safe (s : State) : Prop where
  reached : ∀ id, Reach s.heap.cells s.live.root id ∨ Reach s.heap.cells s.snap.root id ∨
    Reach s.heap.cells (current s) id → (s.heap.cells id).isSome = true ∧ id ∉ s.freed
  pending : ∀ id ∈ s.snap.pending, ¬Reach s.heap.cells s.live.root id ∧
    ¬Reach s.heap.cells s.snap.root id ∧ ¬Reach s.heap.cells (current s) id
  clones : ∀ id ∈ (forkOp s).alloc, ¬Reach s.heap.cells s.live.root id ∧ ¬Reach s.heap.cells s.snap.root id
  inTree : ∀ id, Reach s.heap.cells (current s) id →
    s.live.pending.count id + s.snap.pending.count id + (forkOp s).free.count id = 0
  waiting : ∀ id, (s.heap.cells id).isSome = true → ¬Reach s.heap.cells (current s) id →
    s.live.pending.count id + s.snap.pending.count id + (forkOp s).free.count id = 1
  handed : ∀ id < s.heap.next, s.freed.count id = if (s.heap.cells id).isSome then 0 else 1
  once : s.freed.Nodup

theorem Kept.safe {s : State} {live snap tree : Addressed} (kept : Kept s live snap tree) : Safe s := by
  have inLive : ∀ id, Reach s.heap.cells s.live.root id ↔ id ∈ live.ids := fun id =>
    kept.liveRoot ▸ reach_iff kept.liveStored id
  have inSnap : ∀ id, Reach s.heap.cells s.snap.root id ↔ id ∈ snap.ids := fun id =>
    kept.snapRoot ▸ reach_iff kept.snapStored id
  have inTree : ∀ id, Reach s.heap.cells (current s) id ↔ id ∈ tree.ids := fun id =>
    kept.treeRoot ▸ reach_iff kept.treeStored id
  constructor
  · intro id reached
    rw [inLive, inSnap, inTree] at reached
    have allocated : (s.heap.cells id).isSome = true := by
      rcases reached with there | there | there
      · exact kept.liveStored.allocated there
      · exact kept.snapStored.allocated there
      · exact kept.treeStored.allocated there
    refine ⟨allocated, fun gone => ?_⟩
    have law := kept.freed id
    have some := List.count_pos_iff.mpr gone
    rw [used, if_pos allocated] at law
    split at law <;> omega
  · intro id waits
    rw [inLive, inSnap, inTree]
    exact kept.pending_apart waits
  · intro id cloned
    rw [inLive, inSnap]
    exact kept.clones_apart cloned
  · intro id reached
    rw [inTree] at reached
    have some := List.count_pos_iff.mpr reached
    have placed := kept.placed id
    have worked := kept.worked id
    have bound := used_le s.heap id
    omega
  · intro id allocated absent
    rw [inTree, ← List.count_eq_zero] at absent
    have placed := kept.placed id
    have worked := kept.worked id
    rw [used, if_pos allocated] at placed
    omega
  · intro id early
    have law := kept.freed id
    rw [if_pos early] at law
    unfold used at law
    split at law <;> split <;> first | omega | contradiction
  · rw [List.nodup_iff_count_le_one]
    intro id
    have law := kept.freed id
    split at law <;> omega

/-- The end of a save. The nodes that waited with the view, and no others, are gone from the heap and
counted as released; the list is empty, no root is captured any more, and the rest is as it was. -/
structure Finished (s s' : State) : Prop where
  dropped : s'.snap = ⟨none, []⟩
  cells : ∀ id, s'.heap.cells id = if id ∈ s.snap.pending then none else s.heap.cells id
  released : s'.freed = s.freed ++ s.snap.pending
  live : s'.live = s.live
  fork : s'.fork = s.fork
  next : s'.heap.next = s.heap.next

/-- A captured view can always be given up. -/
theorem Kept.finished {s : State} {live snap tree : Addressed} (kept : Kept s live snap tree) :
    ∃ s', treapSaveFinish s = some s' ∧ Finished s s' ∧ Safe s' := by
  have once : ∀ id, s.snap.pending.count id ≤ used s.heap id := fun id => by
    have placed := kept.placed id
    omega
  obtain ⟨h, done, next, cells, -⟩ := released_chain once
  obtain ⟨s', ended, after⟩ := kept_saveFinish kept
  have same : s' = { s with heap := h, snap := ⟨none, []⟩, freed := s.freed ++ s.snap.pending } := by
    rw [treapSaveFinish, done, Option.map_some] at ended
    exact (Option.some.inj ended).symm
  refine ⟨s', ended, ?_, after.safe⟩
  subst same
  exact ⟨rfl, cells, rfl, rfl, rfl, next⟩

/-- With no fork open and nothing waiting, the heap holds the nodes of the tree and no others. -/
theorem Safe.nothing_left {s : State} (safe : Safe s) (alone : s.fork = none) (live : s.live.pending = [])
    (snap : s.snap.pending = []) (id : Nat) :
    (s.heap.cells id).isSome = true ↔ Reach s.heap.cells s.live.root id := by
  have same : current s = s.live.root := by rw [current, alone]
  constructor
  · intro allocated
    by_contra absent
    have one := safe.waiting id allocated (same ▸ absent)
    rw [live, snap, forkOp, alone] at one
    simp [startOp] at one
  · exact fun reached => (safe.reached id (.inl reached)).1

/-- No run reads or releases a node that is not there. In every state reached the nodes are where
they belong; the tree in memory holds the entries of the tree that is a value; and a save writes
these entries as they were at the capture, whatever has been done since. Finishing a save releases
exactly the nodes that waited with the view, and a capture that is finished leaves, when no fork is
open, no node outside the tree. -/
theorem run_isolated (seed : UInt64) (calls : List Call) :
    ∃ s, run seed calls = some s ∧ Safe s ∧
      contents s s.live.root = some (Sized.entriesOf (OrderedMap.run seed calls).live) ∧
      (∃ s', run seed (calls ++ [.work .saveFinish]) = some s' ∧ Finished s s' ∧ Safe s') ∧
      (∃ s', run seed (calls ++ [.work .capture, .work .saveFinish]) = some s' ∧
        Finished (treapCapture s) s' ∧ (s.fork = none →
          ∀ id, (s'.heap.cells id).isSome = true ↔ Reach s'.heap.cells s'.live.root id)) ∧
      ∀ later : List Call, (∀ call ∈ later, call ≠ .work .capture ∧ call ≠ .work .saveFinish) →
        ∃ s', run seed (calls ++ .work .capture :: later) = some s' ∧ Safe s' ∧
          treapSave s' = some ((Sized.entriesOf (OrderedMap.run seed calls).live).flatMap
            Stream.entryWrites ++ [leBytes 4 0]) := by
  obtain ⟨s, live, snap, tree, done, kept, mirrors, -⟩ :=
    kept_calls seed calls (OrderedMap.start seed) kept_start
      ⟨rfl, rfl, fun _ => rfl, fun busy => absurd rfl busy⟩
  have short : live.ids.length ≤ rounds s.heap :=
    Nat.le_succ_of_le (Sits.length_le kept.clean ⟨kept.liveStored, kept.liveOnce⟩)
  have onward : ∀ more, run seed (calls ++ more) = more.foldlM (step seed) s := fun more => by
    unfold run
    rw [List.foldlM_append, done]
    rfl
  refine ⟨s, done, kept.safe, ?_, ?_, ?_, fun later others => ?_⟩
  · rw [contents, kept.liveRoot, savedEntries_spec kept.liveStored short, mirrors.live]
    rfl
  · obtain ⟨s', ended, finished, safe⟩ := kept.finished
    refine ⟨s', ?_, finished, safe⟩
    rw [onward, List.foldlM_cons, step, ended]
    rfl
  · obtain ⟨s', ended, finished, safe⟩ := (kept_capture kept).finished
    refine ⟨s', ?_, finished, fun alone => ?_⟩
    · rw [onward, List.foldlM_cons, step, Option.bind_eq_bind, Option.bind_some, List.foldlM_cons, step,
        ended]
      rfl
    · refine safe.nothing_left (finished.fork.trans alone) ?_ ?_
      · rw [finished.live]
        rfl
      · rw [finished.dropped]
  · obtain ⟨s', live', snap', tree', done', kept', -, same⟩ := kept_calls seed later
      (OrderedMap.step (calls.foldl OrderedMap.step (OrderedMap.start seed)) (.work .capture)) (kept_capture kept)
      ⟨mirrors.live, mirrors.seeded, mirrors.unforked, mirrors.forked⟩
    cases same others
    refine ⟨s', ?_, kept'.safe, ?_⟩
    · rw [onward]
      exact done'
    · have short' : live.ids.length ≤ rounds s'.heap :=
        Nat.le_succ_of_le (Sits.length_le kept'.clean ⟨kept'.snapStored, kept'.snapOnce⟩)
      rw [treapSave, contents, kept'.snapRoot, savedEntries_spec kept'.snapStored short', mirrors.live]
      rfl

end Kynovo.Store.Isolation
