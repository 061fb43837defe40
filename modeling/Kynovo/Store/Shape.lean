import Mathlib.Data.List.Sort
import Kynovo.Store.OrderedMap

/-! The shape of a tree. Priorities are hashes of the keys and ties are broken by the keys, so one
node of any set of keys stands above all others and has to be the root: two trees of one seed with
the same keys have the same shape. -/
namespace Kynovo.Store.Shape
open Kynovo.Store.Treap (Entry Nodes treapNodeInit treapHash treapPriorityCmp)
open Kynovo.Store.Treap.Nodes
open Kynovo.Store.Order
open Kynovo.Store.Heap

/-! ## One shape for one list of keys -/

/-- What decides where an entry goes. -/
def rank (entry : Entry) : UInt64 × List UInt8 := (entry.priority, entry.key)

theorem beats_of_rank {a b c d : Entry} (first : rank a = rank b) (second : rank c = rank d)
    (above : Beats a c) : Beats b d := by
  obtain ⟨priority, key⟩ := Prod.mk.inj first
  obtain ⟨priority', key'⟩ := Prod.mk.inj second
  rw [beats_iff] at above ⊢
  rw [← priority, ← priority', ← key, ← key']
  exact above

/-- Two trees with the same nodes in the same places, up to the values. -/
def Alike : Nodes → Nodes → Prop
  | nil, nil => True
  | node left entry right, node left' entry' right' =>
    rank entry = rank entry' ∧ Alike left left' ∧ Alike right right'
  | nil, node _ _ _ => False
  | node _ _ _, nil => False

/-- The root stands above every other node of its tree. -/
theorem root_beats {left right : Nodes} {entry found : Entry} (heaped : Heaped (node left entry right))
    (inside : found ∈ (node left entry right).entries) : found = entry ∨ Beats entry found := by
  rcases List.mem_append.mp inside with low | rest
  · exact .inr (heaped.1 found low)
  · rcases List.mem_cons.mp rest with rfl | high
    · exact .inl rfl
    · exact .inr (heaped.2.1 found high)

/-- An entry of one list has its like in a list of the same ranks. -/
theorem mem_of_ranks {list other : List Entry} (same : list.map rank = other.map rank) {entry : Entry}
    (inside : entry ∈ list) : ∃ found ∈ other, rank found = rank entry := by
  have ranked : rank entry ∈ other.map rank := same ▸ List.mem_map_of_mem inside
  obtain ⟨found, member, equal⟩ := List.mem_map.mp ranked
  exact ⟨found, member, equal⟩

/-- Two roots over nodes of the same ranks have the same rank. -/
theorem roots_rank {left right left' right' : Nodes} {entry entry' : Entry}
    (heaped : Heaped (node left entry right)) (heaped' : Heaped (node left' entry' right'))
    (same : (node left entry right).entries.map rank = (node left' entry' right').entries.map rank) :
    rank entry = rank entry' := by
  have here : entry ∈ (node left entry right).entries := List.mem_append_right _ List.mem_cons_self
  have there : entry' ∈ (node left' entry' right').entries := List.mem_append_right _ List.mem_cons_self
  obtain ⟨other, inside, ranked⟩ := mem_of_ranks same here
  obtain ⟨mine, within, ranks⟩ := mem_of_ranks same.symm there
  rcases root_beats heaped' inside with rfl | below
  · exact ranked.symm
  · rcases root_beats heaped within with rfl | under
    · exact ranks
    · have back : Beats other entry' := beats_of_rank ranked.symm ranks under
      exact absurd (back.trans below) (Beats.irrefl _)

/-- The ranks of an ordered tree differ from its root's on both sides. -/
theorem root_rank_notMem {left right : Nodes} {entry : Entry} (ordered : Ordered (node left entry right)) :
    rank entry ∉ left.entries.map rank ∧ rank entry ∉ right.entries.map rank := by
  obtain ⟨-, -, below, above⟩ := ordered_node_iff.mp ordered
  constructor
  · intro inside
    obtain ⟨low, member, equal⟩ := List.mem_map.mp inside
    exact List.lt_irrefl _ ((Prod.mk.inj equal).2 ▸ below low member)
  · intro inside
    obtain ⟨high, member, equal⟩ := List.mem_map.mp inside
    exact List.lt_irrefl _ ((Prod.mk.inj equal).2 ▸ above high member)

/-- The order of the keys and the heap order leave one place for every node. -/
theorem alike_of_ranks {tree other : Nodes} (ordered : Ordered tree) (heaped : Heaped tree)
    (ordered' : Ordered other) (heaped' : Heaped other)
    (same : tree.entries.map rank = other.entries.map rank) : Alike tree other := by
  induction tree generalizing other with
  | nil =>
    cases other with
    | nil => trivial
    | node left entry right => simp [entries] at same
  | node left entry right ihl ihr =>
    cases other with
    | nil => simp [entries] at same
    | node left' entry' right' =>
      have root : rank entry = rank entry' := roots_rank heaped heaped' same
      obtain ⟨apart, apart'⟩ := root_rank_notMem ordered
      rw [root] at apart apart'
      obtain ⟨lower, upper, -, -⟩ := ordered_node_iff.mp ordered
      obtain ⟨lower', upper', -, -⟩ := ordered_node_iff.mp ordered'
      simp only [entries, List.map_append, List.map_cons] at same
      obtain ⟨front, -, back⟩ := (List.append_cons_inj_of_notMem apart apart').mp same
      exact ⟨root, ihl lower heaped.2.2.1 lower' heaped'.2.2.1 front,
        ihr upper heaped.2.2.2 upper' heaped'.2.2.2 back⟩

theorem Alike.length {tree other : Nodes} (alike : Alike tree other) :
    tree.entries.length = other.entries.length := by
  induction tree generalizing other with
  | nil =>
    cases other with
    | nil => rfl
    | node left entry right => exact alike.elim
  | node left entry right ihl ihr =>
    cases other with
    | nil => exact alike.elim
    | node left' entry' right' =>
      obtain ⟨-, lower, upper⟩ := alike
      simp only [entries, List.length_append, List.length_cons, ihl lower, ihr upper]

/-- Trees of one shape with the same entries are the same tree. -/
theorem Alike.eq {tree other : Nodes} (alike : Alike tree other) (same : tree.entries = other.entries) :
    tree = other := by
  induction tree generalizing other with
  | nil =>
    cases other with
    | nil => rfl
    | node left entry right => exact alike.elim
  | node left entry right ihl ihr =>
    cases other with
    | nil => exact alike.elim
    | node left' entry' right' =>
      obtain ⟨-, lower, upper⟩ := alike
      obtain ⟨front, rest⟩ := List.append_inj same lower.length
      obtain ⟨rfl, back⟩ := List.cons.inj rest
      rw [ihl lower front, ihr upper back]

/-- An ordered heap is determined by its entries. -/
theorem nodes_eq_of_entries {tree other : Nodes} (ordered : Ordered tree) (heaped : Heaped tree)
    (heaped' : Heaped other) (same : tree.entries = other.entries) : tree = other := by
  have ordered' : Ordered other := by
    unfold Ordered
    rw [← same]
    exact ordered
  exact (alike_of_ranks ordered heaped ordered' heaped' (congrArg _ same)).eq same

/-! ## Trees of one seed -/

open Kynovo.Store.Sized
open Kynovo.Store.Sized.SizedNodes
open Kynovo.Store.RangeProofs
open Kynovo.Store.OrderedMap

/-- The trees that successful operations lead to from an empty tree of this seed. A load takes a
serialized stream, whose keys ascend. -/
inductive Built (seed : UInt64) : SizedTree → Prop where
  | create : Built seed (treapCreate seed)
  | set {t after : SizedTree} (key value : List UInt8) :
    Built seed t → treapSet t key value = some after → Built seed after
  | delete {t after : SizedTree} {found : Bool} (key : List UInt8) :
    Built seed t → treapDelete t key = some (after, found) → Built seed after
  | deleteRange {t : SizedTree} (first last : List UInt8) :
    Built seed t → Built seed (treapDeleteRange t first last).1
  | fork {t : SizedTree} : Built seed t → Built seed (treapFork t)
  | commit {copy t : SizedTree} : Built seed copy → Built seed t → Built seed (treapCommit copy t)
  | load {t after : SizedTree} (records : List (List UInt8 × List UInt8)) :
    Built seed t → (records.map Prod.fst).Pairwise (· < ·) → treapLoad t records = some after →
      Built seed after

/-- Every priority is the hash of its key. -/
def Hashed (seed : UInt64) (list : List Entry) : Prop := ∀ entry ∈ list, entry.priority = treapHash seed entry.key

/-- What every such tree is. -/
structure Canonical (seed : UInt64) (t : SizedTree) : Prop where
  seeded : t.seed = seed
  valid : Valid t
  heap : Heaped (plain t.root)
  hashed : Hashed seed (entriesOf t)

theorem treapNodeInit_hashed {seed : UInt64} {key value : List UInt8} {entry : Entry}
    (made : treapNodeInit seed key value = some entry) : entry.priority = treapHash seed entry.key := by
  unfold treapNodeInit at made
  split at made
  · cases made
    rfl
  · cases made

theorem mapM_hashed {seed : UInt64} {records : List (List UInt8 × List UInt8)} {loaded : List Entry}
    (made : records.mapM (fun (key, value) => treapNodeInit seed key value) = some loaded) :
    Hashed seed loaded := by
  induction records generalizing loaded with
  | nil =>
    rw [List.mapM_nil] at made
    cases made
    exact nofun
  | cons record records ih =>
    rw [List.mapM_cons] at made
    simp only [Option.bind_eq_bind, Option.bind_eq_some_iff, Option.pure_def, Option.some.injEq] at made
    obtain ⟨entry, first, rest, others, rfl⟩ := made
    intro found inside
    rcases List.mem_cons.mp inside with rfl | further
    · exact treapNodeInit_hashed first
    · exact ih others found further

theorem canonical_set {seed : UInt64} {t after : SizedTree} {key value : List UInt8}
    (canonical : Canonical seed t) (done : treapSet t key value = some after) : Canonical seed after := by
  obtain ⟨entry, made, seeded, shape⟩ := treapSet_plain done
  refine ⟨seeded.trans canonical.seeded, valid_set canonical.valid done,
    heaped_set canonical.valid canonical.heap done, ?_⟩
  intro found inside
  unfold entriesOf at inside
  rw [shape, setRoot_around canonical.valid.ordered] at inside
  have old : ∀ found ∈ (around canonical.valid.ordered entry.key).front ++
      (around canonical.valid.ordered entry.key).back, found.priority = treapHash seed found.key := by
    intro found inside
    apply canonical.hashed
    unfold entriesOf
    rw [(around canonical.valid.ordered entry.key).whole]
    rcases List.mem_append.mp inside with low | high
    · exact List.mem_append_left _ (List.mem_append_left _ low)
    · exact List.mem_append_right _ high
  rcases List.mem_append.mp inside with low | rest
  · exact old found (List.mem_append_left _ low)
  · rcases List.mem_cons.mp rest with rfl | high
    · rw [← canonical.seeded]
      exact treapNodeInit_hashed made
    · exact old found (List.mem_append_right _ high)

theorem canonical_delete {seed : UInt64} {t after : SizedTree} {key : List UInt8} {found : Bool}
    (canonical : Canonical seed t) (done : treapDelete t key = some (after, found)) : Canonical seed after := by
  have valid := valid_delete canonical.valid done
  have heap := heaped_delete canonical.valid canonical.heap done
  rcases treapDelete_plain done with ⟨holds, seeded, -, -, shape⟩ | ⟨-, rfl⟩
  · refine ⟨seeded.trans canonical.seeded, valid, heap, ?_⟩
    intro entry inside
    apply canonical.hashed
    unfold entriesOf at inside ⊢
    rw [shape, Treap.treapMerge_entries, Treap.treapRemoveMin_entries] at inside
    rw [← Treap.treapSplit_entries key]
    rcases List.mem_append.mp inside with low | high
    · exact List.mem_append_left _ low
    · exact List.mem_append_right _ (List.mem_of_mem_tail high)
  · exact canonical

theorem canonical_deleteRange {seed : UInt64} {t : SizedTree} (canonical : Canonical seed t)
    (first last : List UInt8) : Canonical seed (treapDeleteRange t first last).1 where
  seeded := canonical.seeded
  valid := valid_deleteRange canonical.valid first last
  heap := heaped_deleteRange canonical.valid canonical.heap first last
  hashed := by
    intro entry inside
    rw [(treapDeleteRange_spec canonical.valid first last).2] at inside
    exact canonical.hashed entry (List.mem_filter.mp inside).1

theorem canonical_load {seed : UInt64} {t after : SizedTree} {records : List (List UInt8 × List UInt8)}
    (seeded : t.seed = seed) (sorted : (records.map Prod.fst).Pairwise (· < ·))
    (done : treapLoad t records = some after) : Canonical seed after := by
  have valid := valid_load sorted done
  unfold treapLoad at done
  obtain ⟨loaded, made, rfl⟩ := Option.map_eq_some_iff.mp done
  have entries : entriesOf { t with root := closeSpine (loaded.foldl pushEntry []) nil, count := loaded.length } =
      loaded := closeSpine_loaded loaded
  refine ⟨seeded, valid, ?_, ?_⟩
  · rw [closeSpine_plain, foldl_pushEntry_plain]
    apply heaped_loaded
    rw [← entries]
    exact valid.ascending
  · rw [entries, ← seeded]
    exact mapM_hashed made

theorem Built.canonical {seed : UInt64} {t : SizedTree} (built : Built seed t) : Canonical seed t := by
  induction built with
  | create => exact ⟨rfl, ⟨List.Pairwise.nil, trivial, rfl⟩, trivial, nofun⟩
  | set key value _ done ih => exact canonical_set ih done
  | delete key _ done ih => exact canonical_delete ih done
  | deleteRange first last _ ih => exact canonical_deleteRange ih first last
  | fork _ ih => exact ih
  | commit _ _ copied kept =>
    exact ⟨kept.seeded, ⟨copied.valid.ordered, copied.valid.counted, copied.valid.count⟩, copied.heap,
      copied.hashed⟩
  | load records _ sorted done ih => exact canonical_load ih.seeded sorted done

theorem built_update {seed : UInt64} {t : SizedTree} (built : Built seed t) (update : Update) :
    Built seed (applyUpdate t update) := by
  cases update with
  | set key value =>
    change Built seed ((treapSet t key value).getD t)
    cases done : treapSet t key value with
    | none => exact built
    | some after => exact .set key value built done
  | delete key =>
    change Built seed (((treapDelete t key).map Prod.fst).getD t)
    cases done : treapDelete t key with
    | none => exact built
    | some result => exact .delete key built done
  | deleteRange first last => exact .deleteRange first last built

/-- Both the tree of a session and its open fork are built by its calls. -/
structure BuiltSession (seed : UInt64) (s : Session) : Prop where
  live : Built seed s.live
  fork : ∀ copy ∈ s.fork, Built seed copy

theorem built_step {seed : UInt64} {s : Session} (built : BuiltSession seed s) (call : Call) :
    BuiltSession seed (step s call) := by
  obtain ⟨live, fork⟩ := built
  obtain ⟨tree, copy, snap⟩ := s
  cases call with
  | work work =>
    cases work with
    | update update =>
      cases copy with
      | none => exact ⟨built_update live update, nofun⟩
      | some copy =>
        refine ⟨live, fun other inside => ?_⟩
        cases Option.mem_some.mp inside
        exact built_update (fork copy rfl) update
    | capture => exact ⟨live, fork⟩
    | saveFinish => exact ⟨live, fork⟩
  | fork =>
    cases copy with
    | none =>
      refine ⟨live, fun other inside => ?_⟩
      cases Option.mem_some.mp inside
      exact .fork live
    | some copy => exact ⟨live, fork⟩
  | commit =>
    cases copy with
    | none => exact ⟨live, nofun⟩
    | some copy => exact ⟨.commit (fork copy rfl) live, nofun⟩
  | abort => exact ⟨live, nofun⟩

/-- The trees of all runs are built. -/
theorem built_run (seed : UInt64) (calls : List Call) : Built seed (run seed calls).live := by
  have kept (s : Session) (built : BuiltSession seed s) : BuiltSession seed (calls.foldl step s) := by
    induction calls generalizing s with
    | nil => exact built
    | cons call calls ih => exact ih (step s call) (built_step built call)
  exact (kept (start seed) ⟨.create, nofun⟩).live

/-- The same shape, with the same keys and sizes in the same places. -/
def SameShape : SizedNodes → SizedNodes → Prop
  | .nil, .nil => True
  | .node size left entry right, .node size' left' entry' right' =>
    size = size' ∧ entry.key = entry'.key ∧ SameShape left left' ∧ SameShape right right'
  | .nil, .node _ _ _ _ => False
  | .node _ _ _ _, .nil => False

theorem Alike.sameShape {tree other : SizedNodes} (alike : Alike (plain tree) (plain other))
    (counted : Counted tree) (counted' : Counted other) : SameShape tree other := by
  induction tree generalizing other with
  | nil =>
    cases other with
    | nil => trivial
    | node size left entry right => exact alike.elim
  | node size left entry right ihl ihr =>
    cases other with
    | nil => exact alike.elim
    | node size' left' entry' right' =>
      have sizes : storedSize (.node size left entry right) = storedSize (.node size' left' entry' right') := by
        rw [storedSize_eq counted, storedSize_eq counted']
        exact alike.length
      exact ⟨sizes, (Prod.mk.inj alike.1).2, ihl alike.2.1 counted.2.1 counted'.2.1,
        ihr alike.2.2 counted.2.2 counted'.2.2⟩

/-- Ascending lists with the same keys have the same list of keys. -/
theorem keys_eq_of_mem_iff {list other : List Entry} (ascending : Ascending list) (ascending' : Ascending other)
    (same : ∀ key, key ∈ list.map Entry.key ↔ key ∈ other.map Entry.key) :
    list.map Entry.key = other.map Entry.key := by
  have sorted : (list.map Entry.key).Pairwise (· < ·) := List.pairwise_map.mpr ascending
  have sorted' : (other.map Entry.key).Pairwise (· < ·) := List.pairwise_map.mpr ascending'
  exact sorted.eq_of_mem_iff sorted' (fun {key} => same key)

/-- Two trees of one seed with the same keys have the same shape. -/
theorem Canonical.sameShape {seed : UInt64} {t other : SizedTree} (canonical : Canonical seed t)
    (canonical' : Canonical seed other)
    (same : ∀ key, key ∈ (entriesOf t).map Entry.key ↔ key ∈ (entriesOf other).map Entry.key) :
    SameShape t.root other.root := by
  have keys := keys_eq_of_mem_iff canonical.valid.ascending canonical'.valid.ascending same
  have ranked {t : SizedTree} (canonical : Canonical seed t) : (entriesOf t).map rank =
      ((entriesOf t).map Entry.key).map (fun key => (treapHash seed key, key)) := by
    rw [List.map_map]
    refine List.map_congr_left fun entry inside => ?_
    simp only [rank, Function.comp, canonical.hashed entry inside]
  refine Alike.sameShape (alike_of_ranks canonical.valid.ordered canonical.heap canonical'.valid.ordered
    canonical'.heap ?_) canonical.valid.counted canonical'.valid.counted
  change (entriesOf t).map rank = (entriesOf other).map rank
  rw [ranked canonical, ranked canonical', keys]

end Kynovo.Store.Shape
