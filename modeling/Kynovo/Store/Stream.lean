import Kynovo.Store.Treap

/-! Saving and loading a tree through the caller's callbacks. A save hands out
the captured entries in key order, field by field; a load rebuilds the tree from
its right spine while the records arrive. -/
namespace Kynovo.Store.Stream
open Kynovo.Lib.LittleEndian
open Kynovo.Store.Treap
open Kynovo.Store.Treap.Nodes

/-- A field that is only written when it is not empty. -/
def writtenField (bytes : List UInt8) : List (List UInt8) := if bytes = [] then [] else [bytes]

/-- The writes of one entry. -/
def entryWrites (entry : Entry) : List (List UInt8) :=
  leBytes 4 entry.key.length :: writtenField entry.key ++
    leBytes 4 entry.value.length :: writtenField entry.value

/-- The writes of a save: the captured entries, then a zero key length. -/
def treapSave (t : Tree) : List (List UInt8) :=
  t.snap.entries.flatMap entryWrites ++ [leBytes 4 0]

/-- The nodes on the right spine under construction, the deepest first, each with
its finished left side. -/
abbrev Spine := List (Nodes × Entry)

/-- The spine nodes of lower priority become the left side of a new node. -/
def popLower (entry : Entry) : Spine → Nodes → Spine × Nodes
  | [], last => ([], last)
  | (left, top) :: spine, last =>
    if treapPriorityCmp top entry = .lt then popLower entry spine (node left top last)
    else ((left, top) :: spine, last)

def pushEntry (spine : Spine) (entry : Entry) : Spine :=
  let (rest, last) := popLower entry spine nil
  (last, entry) :: rest

/-- The tree a spine stands for, with `right` below its deepest node. -/
def closeSpine : Spine → Nodes → Nodes
  | [], right => right
  | (left, top) :: spine, right => closeSpine spine (node left top right)

/-- What the loader carries from record to record: the spine, the number of
nodes and the capacities of its two buffers. -/
structure Loading where
  spine : Spine
  nodeCount : Nat
  keyCap : Nat
  valueCap : Nat

section Load

variable {σ : Type} (read : Bool → Nat → σ → Option (List UInt8 × σ)) (seed : UInt64)

/-- One record after its key length. The callback is told whether the buffer it
is to fill has been allocated: a buffer grows to the longest field so far, so it
is absent as long as every field was empty. -/
def loadRecord (loading : Loading) (keyLen : Nat) (source : σ) : Option (Loading × σ) := do
  let keyCap := max loading.keyCap keyLen
  let (key, source) ← read (0 < keyCap) keyLen source
  let (raw, source) ← read true 4 source
  let valueCap := max loading.valueCap (leNat raw)
  let (value, source) ← read (0 < valueCap) (leNat raw) source
  let entry ← treapNodeInit seed key value
  return ({
    spine := pushEntry loading.spine entry
    nodeCount := loading.nodeCount + 1
    keyCap
    valueCap }, source)

/-- The record loop ends at a zero key length; `fuel` bounds the records. -/
def loadRecords : Nat → Loading → σ → Option (Loading × σ)
  | 0, _, _ => none
  | fuel + 1, loading, source => do
    let (raw, source) ← read true 4 source
    if leNat raw = 0 then return (loading, source)
    else
      let (loading, source) ← loadRecord read seed loading (leNat raw) source
      loadRecords fuel loading source

end Load

/-- The entries a spine stands for, in key order. -/
def spineEntries (spine : Spine) : List Entry :=
  spine.reverse.flatMap (fun (left, top) => left.entries ++ [top])

theorem closeSpine_entries (spine : Spine) (right : Nodes) :
    (closeSpine spine right).entries = spineEntries spine ++ right.entries := by
  induction spine generalizing right with
  | nil => rfl
  | cons top spine ih =>
    obtain ⟨left, entry⟩ := top
    rw [closeSpine, ih]
    simp [spineEntries, entries]

theorem popLower_entries (entry : Entry) (spine : Spine) (last : Nodes) :
    spineEntries (popLower entry spine last).1 ++ (popLower entry spine last).2.entries =
      spineEntries spine ++ last.entries := by
  induction spine generalizing last with
  | nil => rfl
  | cons top spine ih =>
    obtain ⟨left, head⟩ := top
    unfold popLower
    split
    · rw [ih]
      simp [spineEntries, entries]
    · rfl

theorem pushEntry_entries (spine : Spine) (entry : Entry) :
    spineEntries (pushEntry spine entry) = spineEntries spine ++ [entry] := by
  have popped := popLower_entries entry spine nil
  simp only [entries, List.append_nil] at popped
  rw [← popped]
  simp [pushEntry, spineEntries]

/-- The spine holds as many entries as were counted. -/
structure Loading.Sound (loading : Loading) : Prop where
  counted : loading.nodeCount = (spineEntries loading.spine).length

theorem loadRecord_sound {σ : Type} {read : Bool → Nat → σ → Option (List UInt8 × σ)}
    {seed : UInt64} {before after : Loading} {keyLen : Nat} {source rest : σ}
    (loaded : loadRecord read seed before keyLen source = some (after, rest))
    (sound : before.Sound) : after.Sound := by
  simp only [loadRecord, Option.bind_eq_bind, Option.bind_eq_some_iff, Option.pure_def,
    Option.some.injEq, Prod.mk.injEq] at loaded
  obtain ⟨_, -, _, -, _, -, entry, -, rfl, -⟩ := loaded
  constructor
  rw [pushEntry_entries, List.length_append, List.length_singleton, sound.counted]

theorem loadRecords_sound {σ : Type} {read : Bool → Nat → σ → Option (List UInt8 × σ)}
    {seed : UInt64} {fuel : Nat} {before after : Loading} {source rest : σ}
    (loaded : loadRecords read seed fuel before source = some (after, rest))
    (sound : before.Sound) : after.Sound := by
  induction fuel generalizing before source with
  | zero => cases loaded
  | succ fuel ih =>
    simp only [loadRecords, Option.bind_eq_bind, Option.bind_eq_some_iff] at loaded
    obtain ⟨⟨raw, tail⟩, -, body⟩ := loaded
    split at body
    · cases body
      exact sound
    · simp only [Option.bind_eq_some_iff] at body
      obtain ⟨⟨next, tail'⟩, record, remaining⟩ := body
      exact ih remaining (loadRecord_sound record sound)

/-- The loader before its first record. -/
def Loading.start : Loading where
  spine := []
  nodeCount := 0
  keyCap := 0
  valueCap := 0

theorem Loading.start_sound : Loading.start.Sound := ⟨rfl⟩

/-- The tree a finished record loop leaves; it replaces the old one. -/
def loadedTree (t : Tree) (loading : Loading) (sound : loading.Sound) : Tree where
  root := closeSpine loading.spine nil
  count := loading.nodeCount
  seed := t.seed
  snap := nil
  counted := by
    rw [closeSpine_entries, sound.counted]
    simp [entries]

/-- A load is refused while a captured view is in use. -/
def treapLoad {σ : Type} (read : Bool → Nat → σ → Option (List UInt8 × σ)) (fuel : Nat)
    (t : Tree) (source : σ) : Option (Tree × σ) :=
  if t.snap ≠ nil then none
  else
    match loaded : loadRecords read t.seed fuel Loading.start source with
    | none => none
    | some (loading, rest) =>
      some (loadedTree t loading (loadRecords_sound loaded Loading.start_sound), rest)

end Kynovo.Store.Stream
