import Kynovo.Store.Shape
import Kynovo.Server.SnapshotImage

/-! A saved tree and the loader that builds a tree from a stream in one pass. Nodes get their
sizes when they leave the spine. The file's reader refuses a read without a buffer, and the loader
has no value buffer before the first value that is not empty. -/
namespace Kynovo.Server.TreeRoundTrip
open Kynovo.Lib.LittleEndian
open Kynovo.Store.Treap (Entry Nodes treapNodeInit treapHash)
open Kynovo.Store.Order
open Kynovo.Store.Stream (Loading entryWrites spineEntries)
open Kynovo.Store.Sized
open Kynovo.Store.Sized.SizedNodes
open Kynovo.Store.RangeProofs
open Kynovo.Store.Heap
open Kynovo.Store.OrderedMap
open Kynovo.Store.Shape
open Kynovo.Server.Command (sized)
open Kynovo.Server.SnapshotFile
open Kynovo.Server.SnapshotImage

/-- The writes of a save: the entries of the captured root, then a zero key length. -/
def treapSave (root : SizedNodes) : List (List UInt8) :=
  (plain root).entries.flatMap entryWrites ++ [leBytes 4 0]

/-! ## The loader -/

/-- What the loader carries from record to record, with sized nodes on its spine. -/
structure SizedLoading where
  spine : SizedSpine
  nodeCount : Nat
  keyCap : Nat
  valueCap : Nat

section Load

variable {σ : Type} (read : Bool → Nat → σ → Option (List UInt8 × σ)) (seed : UInt64)

/-- One record after its key length; the callback is told whether its buffer has been allocated. -/
def loadRecord (loading : SizedLoading) (keyLen : Nat) (source : σ) : Option (SizedLoading × σ) := do
  let keyCap := max loading.keyCap keyLen
  let (key, source) ← read (0 < keyCap) keyLen source
  let (raw, source) ← read true 4 source
  let valueCap := max loading.valueCap (leNat raw)
  let (value, source) ← read (0 < valueCap) (leNat raw) source
  let entry ← treapNodeInit seed key value
  return ({
    spine := pushEntry loading.spine entry
    nodeCount := loading.nodeCount + 1
    keyCap
    valueCap }, source)

/-- The record loop ends at a zero key length; `fuel` bounds the records. -/
def loadRecords : Nat → SizedLoading → σ → Option (SizedLoading × σ)
  | 0, _, _ => none
  | fuel + 1, loading, source => do
    let (raw, source) ← read true 4 source
    if leNat raw = 0 then return (loading, source)
    else
      let (loading, source) ← loadRecord read seed loading (leNat raw) source
      loadRecords fuel loading source

/-- The loaded nodes replace those of a tree that has no captured view. -/
def treapLoad (fuel : Nat) (t : SizedTree) (source : σ) : Option (SizedTree × σ) :=
  (loadRecords read t.seed fuel ⟨[], 0, 0, 0⟩ source).map (fun (loading, source) =>
    ({ t with root := closeSpine loading.spine nil, count := loading.nodeCount }, source))

end Load

def plainLoading (loading : SizedLoading) : Loading :=
  ⟨plainSpine loading.spine, loading.nodeCount, loading.keyCap, loading.valueCap⟩

section Plain

variable {σ : Type} {read : Bool → Nat → σ → Option (List UInt8 × σ)} {seed : UInt64}

theorem loadRecord_plain (loading : SizedLoading) (keyLen : Nat) (source : σ) :
    (loadRecord read seed loading keyLen source).map (Prod.map plainLoading id) =
      Store.Stream.loadRecord read seed (plainLoading loading) keyLen source := by
  have pushed (entry : Entry) : plainSpine (pushEntry loading.spine entry) =
      Store.Stream.pushEntry (plainSpine loading.spine) entry := foldl_pushEntry_plain [entry] loading.spine
  unfold loadRecord Store.Stream.loadRecord
  simp only [Option.bind_eq_bind, Option.map_bind, Option.pure_def, Function.comp_def]
  refine Option.bind_congr fun first _ => ?_
  refine Option.bind_congr fun second _ => ?_
  refine Option.bind_congr fun third _ => ?_
  refine Option.bind_congr fun entry _ => ?_
  simp only [Option.map_some, Prod.map, plainLoading, pushed, id]

/-- Sizes do not change what a load reads. -/
theorem loadRecords_plain (fuel : Nat) (loading : SizedLoading) (source : σ) :
    (loadRecords read seed fuel loading source).map (Prod.map plainLoading id) =
      Store.Stream.loadRecords read seed fuel (plainLoading loading) source := by
  induction fuel generalizing loading source with
  | zero => rfl
  | succ fuel ih =>
    unfold loadRecords Store.Stream.loadRecords
    cases header : read true 4 source with
    | none => rfl
    | some field =>
      obtain ⟨raw, source⟩ := field
      simp only [Option.bind_eq_bind, Option.bind_some]
      split
      · rfl
      · rw [← loadRecord_plain]
        cases loadRecord read seed loading (leNat raw) source with
        | none => rfl
        | some record => exact ih record.1 record.2

/-- The spine of a load holds the entries that were made, in their order. -/
theorem loadRecords_pushed {fuel : Nat} {before after : SizedLoading} {source rest : σ}
    (done : loadRecords read seed fuel before source = some (after, rest)) :
    ∃ loaded : List Entry, after.spine = loaded.foldl pushEntry before.spine ∧
      after.nodeCount = before.nodeCount + loaded.length := by
  induction fuel generalizing before source with
  | zero => cases done
  | succ fuel ih =>
    simp only [loadRecords, Option.bind_eq_bind, Option.bind_eq_some_iff] at done
    obtain ⟨⟨raw, tail⟩, -, body⟩ := done
    split at body
    · cases body
      exact ⟨[], rfl, rfl⟩
    · simp only [Option.bind_eq_some_iff] at body
      obtain ⟨⟨next, further⟩, record, remaining⟩ := body
      obtain ⟨loaded, spine, counted⟩ := ih remaining
      simp only [loadRecord, Option.bind_eq_bind, Option.bind_eq_some_iff, Option.pure_def,
        Option.some.injEq, Prod.mk.injEq] at record
      obtain ⟨_, -, _, -, _, -, entry, -, rfl, -⟩ := record
      refine ⟨entry :: loaded, spine, counted.trans ?_⟩
      rw [List.length_cons]
      dsimp only
      omega

end Plain

/-! ## Loading what was saved -/

/-- The records of a stream and the zero key length behind them. -/
def streamBytes (saved : List Entry) : List UInt8 :=
  saved.flatMap (fun entry => sized entry.key ++ sized entry.value) ++ leBytes 4 0

theorem treapSave_bytes (root : SizedNodes) :
    (treapSave root).flatten = streamBytes (plain root).entries := by
  rw [treapSave, streamBytes, List.flatten_append, List.flatten_singleton]
  congr 1
  induction (plain root).entries with
  | nil => rfl
  | cons entry rest ih =>
    rw [List.flatMap_cons, List.flatten_append, ih, entryWrites_flatten, List.flatMap_cons]

theorem reseed_key (seed : UInt64) (entry : Entry) : (reseed seed entry).key = entry.key := by
  cases entry
  unfold reseed
  exact rfl

theorem reseed_value (seed : UInt64) (entry : Entry) : (reseed seed entry).value = entry.value := by
  cases entry
  unfold reseed
  exact rfl

/-- A tree made from these records. -/
structure LoadedFrom (seed : UInt64) (saved : List Entry) (t : SizedTree) : Prop where
  entries : entriesOf t = saved.map (reseed seed)
  valid : Valid t
  heap : Heaped (plain t.root)

theorem treapLoad_stream {file rest : List UInt8} {saved : List Entry} (ascending : Ascending saved)
    (kept : FirstValueKept saved) {io : FileIo} {fuel : Nat} (enough : saved.length < fuel)
    (t : SizedTree) (reads : Reads file io (streamBytes saved ++ rest)) :
    ∃ loaded io', treapLoad (kFileRead file) fuel t io = some (loaded, io') ∧ Reads file io' rest ∧
      LoadedFrom t.seed saved loaded := by
  rw [streamBytes, List.append_assoc] at reads
  obtain ⟨final, io', records, ends, found⟩ :=
    @loadRecords_saved file rest t.seed saved fuel enough (plainLoading ⟨[], 0, 0, 0⟩) (.inr kept) io reads
  rw [← loadRecords_plain] at records
  obtain ⟨⟨after, source⟩, done, same⟩ := Option.map_eq_some_iff.mp records
  obtain ⟨rfl, rfl⟩ := Prod.mk.inj same
  obtain ⟨loaded, spine, counted⟩ := loadRecords_pushed done
  have spined : spineEntries (plainSpine after.spine) = loaded := by
    rw [spine, foldl_pushEntry_plain, foldl_pushEntry_entries]
    rfl
  have made : loaded = saved.map (reseed t.seed) := by
    have start : spineEntries (plainLoading ⟨[], 0, 0, 0⟩).spine = [] := rfl
    rw [start, List.nil_append] at found
    exact spined.symm.trans found
  have sorted : Ascending loaded := by
    rw [made, Ascending, List.pairwise_map]
    simp only [reseed_key]
    exact ascending
  have shape : plain (closeSpine after.spine nil) =
      Store.Stream.closeSpine (loaded.foldl Store.Stream.pushEntry []) .nil := by
    rw [closeSpine_plain, spine, foldl_pushEntry_plain]
    rfl
  have entries : (plain (closeSpine after.spine nil)).entries = loaded := by
    rw [spine]
    exact closeSpine_loaded loaded
  refine ⟨{ t with root := closeSpine after.spine nil, count := after.nodeCount }, source,
    by rw [treapLoad, done, Option.map_some], ends, entries.trans made, ?_, ?_⟩
  · constructor
    · unfold Ordered
      dsimp only
      rw [entries]
      exact sorted
    · dsimp only
      rw [spine]
      exact closeSpine_counted (foldl_pushEntry_counted loaded (by simp [SpineCounted])) trivial
    · dsimp only [entriesOf]
      rw [entries, counted, Nat.zero_add]
  · dsimp only
    rw [shape]
    exact heaped_loaded sorted

/-- A stream whose first value is empty is refused. -/
theorem treapLoad_first_empty {file rest : List UInt8} {saved : List Entry} (dropped : ¬FirstValueKept saved)
    {io : FileIo} {fuel : Nat} (t : SizedTree) (reads : Reads file io (streamBytes saved ++ rest)) :
    treapLoad (kFileRead file) fuel t io = none := by
  cases saved with
  | nil => simp [FirstValueKept] at dropped
  | cons entry others =>
    have empty : entry.value = [] := by simpa [FirstValueKept] using dropped
    rw [streamBytes, List.flatMap_cons, List.append_assoc, List.append_assoc] at reads
    have refused : Store.Stream.loadRecords (kFileRead file) t.seed fuel (plainLoading ⟨[], 0, 0, 0⟩) io = none :=
      loadRecords_first_empty empty rfl reads
    rw [← loadRecords_plain] at refused
    rw [treapLoad, Option.map_eq_none_iff.mp refused, Option.map_none]

/-! ## When a load gives the tree -/

/-- Read from any place of any file, the records give a tree that is a search tree and a heap with
exact sizes and holds these keys and values. -/
def LoadsWell (seed : UInt64) (saved : List Entry) : Prop :=
  ∀ (file rest : List UInt8) (io : FileIo) (fuel : Nat), saved.length < fuel →
    Reads file io (streamBytes saved ++ rest) →
    ∃ loaded io', treapLoad (kFileRead file) fuel (treapCreate seed) io = some (loaded, io') ∧
      SearchTree loaded.root ∧ Heaped (plain loaded.root) ∧ ExactSizes loaded.root ∧
      (entriesOf loaded).map (fun entry => (entry.key, entry.value)) =
        saved.map (fun entry => (entry.key, entry.value))

/-- A load into a new tree of the same seed gives the saved nodes, each with its size. -/
def LoadsBack (t : SizedTree) : Prop :=
  ∀ (file rest : List UInt8) (io : FileIo) (fuel : Nat), (entriesOf t).length < fuel →
    Reads file io ((treapSave t.root).flatten ++ rest) →
    ∃ loaded io', treapLoad (kFileRead file) fuel (treapCreate t.seed) io = some (loaded, io') ∧
      loaded.root = t.root ∧ loaded.count = t.count

theorem loadsWell_iff (seed : UInt64) {saved : List Entry} (ascending : Ascending saved) :
    LoadsWell seed saved ↔ FirstValueKept saved := by
  constructor
  · intro loads
    by_contra dropped
    have reads : Reads (streamBytes saved ++ []) ⟨0, crcStart⟩ (streamBytes saved ++ []) := Reads.start _
    obtain ⟨loaded, io', done, -⟩ := loads _ [] _ _ (Nat.lt_succ_self _) reads
    rw [treapLoad_first_empty dropped _ reads] at done
    cases done
  · intro kept file rest io fuel enough reads
    obtain ⟨loaded, io', done, -, made⟩ := treapLoad_stream ascending kept enough (treapCreate seed) reads
    refine ⟨loaded, io', done, searchTree_of_ordered made.valid.ordered, made.heap,
      exactSizes_of_counted made.valid.counted, ?_⟩
    rw [made.entries, List.map_map]
    simp only [Function.comp_def, reseed_key, reseed_value]

/-- Sizes follow from the nodes. -/
theorem sized_eq_of_plain {tree other : SizedNodes} (counted : Counted tree) (counted' : Counted other)
    (same : plain tree = plain other) : tree = other := by
  induction tree generalizing other with
  | nil =>
    cases other with
    | nil => rfl
    | node size left entry right => cases same
  | node size left entry right ihl ihr =>
    cases other with
    | nil => cases same
    | node size' left' entry' right' =>
      obtain ⟨lower, rfl, upper⟩ := Nodes.node.inj same
      obtain ⟨here, below, above⟩ := counted
      obtain ⟨here', below', above'⟩ := counted'
      cases ihl below below' lower
      cases ihr above above' upper
      rw [here, here']

theorem reseed_hashed {seed : UInt64} {list : List Entry} (hashed : Hashed seed list) :
    list.map (reseed seed) = list := by
  refine (List.map_congr_left fun entry inside => ?_).trans (List.map_id list)
  have same := hashed entry inside
  obtain ⟨key, value, priority, keyed, keyFits, valueFits⟩ := entry
  dsimp only at same
  subst same
  simp only [reseed, id]

theorem loadsBack_iff {seed : UInt64} {t : SizedTree} (built : Built seed t) :
    LoadsBack t ↔ FirstValueKept (entriesOf t) := by
  have canonical := built.canonical
  constructor
  · intro loads
    by_contra dropped
    have reads : Reads (streamBytes (entriesOf t) ++ []) ⟨0, crcStart⟩ (streamBytes (entriesOf t) ++ []) :=
      Reads.start _
    have saved : Reads (streamBytes (entriesOf t) ++ []) ⟨0, crcStart⟩ ((treapSave t.root).flatten ++ []) := by
      rw [treapSave_bytes]
      exact reads
    obtain ⟨loaded, io', done, -⟩ := loads _ [] _ _ (Nat.lt_succ_self _) saved
    rw [treapLoad_first_empty dropped _ reads] at done
    cases done
  · intro kept file rest io fuel enough reads
    rw [treapSave_bytes] at reads
    obtain ⟨loaded, io', done, -, made⟩ :=
      treapLoad_stream canonical.valid.ascending kept enough (treapCreate t.seed) reads
    have entries : entriesOf loaded = entriesOf t := by
      rw [made.entries]
      exact reseed_hashed (canonical.seeded ▸ canonical.hashed)
    refine ⟨loaded, io', done, ?_, ?_⟩
    · apply sized_eq_of_plain made.valid.counted canonical.valid.counted
      exact nodes_eq_of_entries made.valid.ordered made.heap canonical.heap entries
    · rw [made.valid.count, canonical.valid.count, entries]

/-- The keys decide the shape of a tree of one seed. A saved tree is loaded as it was, and a stream
of ascending keys is loaded into a search tree and a heap with exact sizes, exactly when the first
value of the stream is not empty. -/
theorem shape_and_round_trip_iff (seed : UInt64) :
    (∀ t other, Built seed t → Built seed other →
      (∀ key, key ∈ (entriesOf t).map Entry.key ↔ key ∈ (entriesOf other).map Entry.key) →
      SameShape t.root other.root) ∧
    (∀ t, Built seed t → (LoadsBack t ↔ FirstValueKept (entriesOf t))) ∧
    (∀ saved, Ascending saved → (LoadsWell seed saved ↔ FirstValueKept saved)) :=
  ⟨fun _ _ built built' same => built.canonical.sameShape built'.canonical same,
    fun _ built => loadsBack_iff built, fun _ ascending => loadsWell_iff seed ascending⟩

/-- Four keys, set in no order. The last of them has no value. -/
def mixedTree : Option SizedTree :=
  (((treapSet (treapCreate 7) [99] [3]).bind fun t => treapSet t [97] [1]).bind
    fun t => treapSet t [100] []).bind fun t => treapSet t [98] [2, 2]

/-- All of them are loaded back. -/
theorem mixed_tree_loads_back : ∃ t, mixedTree = some t ∧ (entriesOf t).length = 4 ∧ LoadsBack t := by
  have tested : mixedTree.any (fun t =>
      decide (FirstValueKept (entriesOf t)) && decide ((entriesOf t).length = 4)) = true := by
    decide +kernel
  obtain ⟨t, done, passed⟩ := (Option.any_eq_true _ _).mp tested
  rw [Bool.and_eq_true, decide_eq_true_eq, decide_eq_true_eq] at passed
  obtain ⟨third, made, last⟩ := Option.bind_eq_some_iff.mp done
  obtain ⟨second, before, set⟩ := Option.bind_eq_some_iff.mp made
  obtain ⟨first, begun, next⟩ := Option.bind_eq_some_iff.mp before
  have built : Built 7 t := .set [98] [2, 2] (.set [100] [] (.set [97] [1]
    (.set [99] [3] .create begun) next) set) last
  exact ⟨t, done, passed.2, ((shape_and_round_trip_iff 7).2.1 t built).mpr passed.1⟩

/-- A key with an empty value is saved and not loaded. -/
theorem empty_value_not_loaded : ∃ t, treapSet (treapCreate 7) [97] [] = some t ∧ Built 7 t ∧ ¬LoadsBack t := by
  have set : (treapSet (treapCreate 7) [97] []).any (fun t => decide (¬FirstValueKept (entriesOf t))) = true := by
    decide +kernel
  obtain ⟨t, done, dropped⟩ := (Option.any_eq_true _ _).mp set
  have built : Built 7 t := .set [97] [] .create done
  exact ⟨t, done, built, fun loads => of_decide_eq_true dropped ((loadsBack_iff built).mp loads)⟩

end Kynovo.Server.TreeRoundTrip
