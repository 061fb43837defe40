import Mathlib.Data.List.Basic

/-! Which of its nodes a copy-on-write treap holds besides the live ones. An operation makes
new nodes and retires those they replace; a capture takes the current root and all nodes
retired so far, and a load replaces everything, so it is refused while a capture or a
working copy's own state is in the way. Nodes are known by number. -/
namespace Kynovo.Store.Ownership

/-- The nodes of one finished operation: the root it leaves, the nodes it made and those it
took out of the tree. -/
structure TreapOp where
  root : Option Nat
  made : List Nat
  retired : List Nat

/-- The live or the captured side of a tree. -/
structure TreapState where
  root : Option Nat
  pendingFree : List Nat

structure Treap where
  live : TreapState
  snap : TreapState
  txn : Bool
  txnMade : List Nat
  txnRetired : List Nat

def treapCreate : Treap := ⟨⟨none, []⟩, ⟨none, []⟩, false, [], []⟩

/-- A working copy keeps the whole operation to itself. -/
def treapPublishOp (t : Treap) (op : TreapOp) : Treap :=
  if t.txn then
    { t with
      live := { t.live with root := op.root }
      txnMade := op.made ++ t.txnMade
      txnRetired := op.retired ++ t.txnRetired }
  else
    { t with live := ⟨op.root, op.retired ++ t.live.pendingFree⟩ }

def treapCapture (t : Treap) : Treap :=
  { t with
    live := { t.live with pendingFree := [] }
    snap := ⟨t.live.root, t.snap.pendingFree ++ t.live.pendingFree⟩ }

/-- The retired nodes of the capture are freed. -/
def treapSaveFinish (t : Treap) : Treap := { t with snap := ⟨none, []⟩ }

/-- What the load tests before it reads anything. -/
def Treap.refuses (t : Treap) : Bool := t.txn || t.snap.root.isSome || !t.snap.pendingFree.isEmpty

/-- The file holds the tree with the given root, or it cannot be read. -/
def treapLoad (t : Treap) (file : Option (Option Nat)) : Option Treap :=
  if t.refuses then none
  else file.map (fun root => { t with live := ⟨root, []⟩, snap := ⟨none, []⟩ })

/-! ## Working copies -/

/-- The server's tree with the working copies that are still open, the newest first. -/
structure Forest where
  tree : Treap
  forks : List Treap

def Forest.start : Forest := ⟨treapCreate, []⟩

/-- A working copy has no working copies. -/
def treapFork (f : Forest) : Option Forest :=
  if f.tree.txn then none
  else some { f with forks := ⟨⟨f.tree.live.root, []⟩, ⟨none, []⟩, true, [], []⟩ :: f.forks }

def treapCommit (f : Forest) : Forest :=
  match f.forks with
  | [] => f
  | copy :: rest =>
    ⟨{ f.tree with live := ⟨copy.live.root, copy.txnRetired ++ f.tree.live.pendingFree⟩ }, rest⟩

/-- The nodes the working copy made are freed. -/
def treapAbort (f : Forest) : Forest := { f with forks := f.forks.tail }

def Forest.onFork (f : Forest) (op : TreapOp) : Forest :=
  match f.forks with
  | [] => f
  | copy :: rest => { f with forks := treapPublishOp copy op :: rest }

/-- What a command does to the tree: one operation, or several in a working copy that is
committed or dropped before the command returns. -/
inductive Change where
  | op (op : TreapOp)
  | transaction (ops : List TreapOp) (commit : Bool)

def Forest.change (f : Forest) : Change → Forest
  | .op op => { f with tree := treapPublishOp f.tree op }
  | .transaction ops commit =>
    match treapFork f with
    | none => f
    | some forked =>
      let worked := ops.foldl Forest.onFork forked
      if commit then treapCommit worked else treapAbort worked

def Forest.changes (f : Forest) (changes : List Change) : Forest := changes.foldl Forest.change f

/-! ## What a command leaves alone -/

/-- No working copy is open, and the captured side is the same. -/
structure Untouched (f g : Forest) : Prop where
  forks : g.forks = f.forks
  snap : g.tree.snap = f.tree.snap
  txn : g.tree.txn = f.tree.txn

theorem Untouched.refl (f : Forest) : Untouched f f := ⟨rfl, rfl, rfl⟩

theorem Untouched.trans {f g h : Forest} (first : Untouched f g) (second : Untouched g h) :
    Untouched f h :=
  ⟨second.forks.trans first.forks, second.snap.trans first.snap, second.txn.trans first.txn⟩

theorem treapPublishOp_snap (t : Treap) (op : TreapOp) : (treapPublishOp t op).snap = t.snap := by
  unfold treapPublishOp
  split
  · rfl
  · rfl

theorem treapPublishOp_txn (t : Treap) (op : TreapOp) : (treapPublishOp t op).txn = t.txn := by
  unfold treapPublishOp
  split
  · rfl
  · rfl

/-- The operations of a transaction stay on the newest working copy. -/
theorem onFork_foldl (f : Forest) (copy : Treap) (ops : List TreapOp) :
    (ops.foldl Forest.onFork ⟨f.tree, copy :: f.forks⟩).tree = f.tree ∧
      ∃ worked, (ops.foldl Forest.onFork ⟨f.tree, copy :: f.forks⟩).forks = worked :: f.forks := by
  induction ops generalizing copy with
  | nil => exact ⟨rfl, copy, rfl⟩
  | cons op ops ih => exact ih (treapPublishOp copy op)

/-- A working copy that ends leaves what was there before it. -/
theorem ended_untouched {f g : Forest} {worked : Treap} (tree : g.tree = f.tree)
    (shape : g.forks = worked :: f.forks) (commit : Bool) :
    Untouched f (if commit then treapCommit g else treapAbort g) := by
  obtain ⟨tree', forks'⟩ := g
  cases tree
  cases shape
  split
  · exact ⟨rfl, rfl, rfl⟩
  · exact ⟨rfl, rfl, rfl⟩

theorem change_untouched (f : Forest) (change : Change) : Untouched f (f.change change) := by
  cases change with
  | op op => exact ⟨rfl, treapPublishOp_snap f.tree op, treapPublishOp_txn f.tree op⟩
  | transaction ops commit =>
    simp only [Forest.change]
    split
    · exact .refl f
    · rename_i forked opened
      unfold treapFork at opened
      split at opened
      · cases opened
      · cases opened
        obtain ⟨tree, worked, shape⟩ :=
          onFork_foldl f ⟨⟨f.tree.live.root, []⟩, ⟨none, []⟩, true, [], []⟩ ops
        exact ended_untouched tree shape commit

theorem changes_untouched (f : Forest) (changes : List Change) : Untouched f (f.changes changes) := by
  induction changes generalizing f with
  | nil => exact .refl f
  | cons change rest ih => exact (change_untouched f change).trans (ih (f.change change))

end Kynovo.Store.Ownership
