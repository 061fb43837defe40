import Mathlib.Data.List.Basic
import Mathlib.Data.List.Nodup
import Mathlib.Data.List.Pairwise
import Mathlib.Tactic.Common

/-! Chained hash tables over natural keys: the bucket of a key is its remainder by the number
of buckets, and a table grows by pushing every cell into a larger one. -/
namespace Kynovo.Lib.BucketTable

variable {α : Type}

structure Cell (α : Type) where
  id : Nat
  value : α

abbrev Buckets (α : Type) := List (List (Cell α))

/-- The chain a key belongs to. -/
def chain (table : Buckets α) (id : Nat) : List (Cell α) := (table[id % table.length]?).getD []

def find (table : Buckets α) (id : Nat) : Option (Cell α) :=
  (chain table id).find? fun cell => cell.id = id

/-- A cell at the head of its chain. -/
def push (table : Buckets α) (cell : Cell α) : Buckets α :=
  table.modify (cell.id % table.length) (cell :: ·)

/-- The value of a key, changed in place. -/
def update (table : Buckets α) (id : Nat) (change : α → α) : Buckets α :=
  table.modify (id % table.length) fun cells => cells.map fun cell =>
    if cell.id = id then { cell with value := change cell.value } else cell

/-- Every cell of a table, pushed into a new one. -/
def rehash (table : Buckets α) (count : Nat) : Buckets α :=
  table.flatten.foldl push (List.replicate count [])

/-- Every cell is in the bucket of its key, and no key is in a chain twice. -/
structure Sound (table : Buckets α) : Prop where
  positive : 0 < table.length
  placed : ∀ (j : Nat) (cells : List (Cell α)), table[j]? = some cells →
    ∀ cell ∈ cells, cell.id % table.length = j
  unique : ∀ (j : Nat) (cells : List (Cell α)), table[j]? = some cells →
    (cells.map Cell.id).Nodup

@[simp] theorem length_push (table : Buckets α) (cell : Cell α) :
    (push table cell).length = table.length := by
  simp [push]

@[simp] theorem length_update (table : Buckets α) (id : Nat) (change : α → α) :
    (update table id change).length = table.length := by
  simp [update]

theorem getElem?_push (table : Buckets α) (cell : Cell α) (j : Nat) :
    (push table cell)[j]? =
      if cell.id % table.length = j then (table[j]?).map (cell :: ·) else table[j]? := by
  unfold push
  rw [List.getElem?_modify]
  split
  · rfl
  · simp

theorem chain_push (table : Buckets α) (cell : Cell α) (positive : 0 < table.length) (id : Nat) :
    chain (push table cell) id =
      if cell.id % table.length = id % table.length then cell :: chain table id
      else chain table id := by
  have inside : id % table.length < table.length := Nat.mod_lt _ positive
  unfold chain
  rw [length_push, getElem?_push]
  split
  · rw [List.getElem?_eq_getElem inside]
    rfl
  · rfl

theorem find_push (table : Buckets α) (cell : Cell α) (positive : 0 < table.length) (id : Nat) :
    find (push table cell) id = if cell.id = id then some cell else find table id := by
  unfold find
  rw [chain_push table cell positive]
  by_cases same : cell.id = id
  · simp [same]
  · split
    · simp [same]
    · simp

theorem getElem?_update (table : Buckets α) (id : Nat) (change : α → α) (j : Nat) :
    (update table id change)[j]? =
      if id % table.length = j then (table[j]?).map fun cells => cells.map fun cell =>
        if cell.id = id then { cell with value := change cell.value } else cell
      else table[j]? := by
  unfold update
  rw [List.getElem?_modify]
  split
  · rfl
  · simp

theorem find_update (table : Buckets α) (id : Nat) (change : α → α) (key : Nat) :
    find (update table id change) key =
      if key = id then (find table id).map fun cell => { cell with value := change cell.value }
      else find table key := by
  have through (cells : List (Cell α)) : (cells.map fun cell =>
      if cell.id = id then { cell with value := change cell.value } else cell).find?
        (fun cell => cell.id = key) = (cells.find? fun cell => cell.id = key).map fun cell =>
          if cell.id = id then { cell with value := change cell.value } else cell := by
    induction cells with
    | nil => rfl
    | cons cell rest ih =>
      have kept : (if cell.id = id then { cell with value := change cell.value } else cell).id =
          cell.id := by
        split
        · rfl
        · rfl
      rw [List.map_cons, List.find?_cons, List.find?_cons, kept, ih]
      split
      · rfl
      · rfl
  have chained : chain (update table id change) key =
      if id % table.length = key % table.length then (chain table key).map fun cell =>
        if cell.id = id then { cell with value := change cell.value } else cell
      else chain table key := by
    unfold chain
    rw [length_update, getElem?_update]
    split
    · cases table[key % table.length]? with
      | none => rfl
      | some cells => rfl
    · rfl
  unfold find
  rw [chained]
  by_cases same : key = id
  · subst same
    rw [if_pos rfl, if_pos rfl, through]
    cases found : (chain table key).find? fun cell => decide (cell.id = key) with
    | none => rfl
    | some cell =>
      have here : cell.id = key := by simpa using List.find?_some found
      simp [here]
  · rw [if_neg same]
    split
    · rw [through]
      cases found : (chain table key).find? fun cell => decide (cell.id = key) with
      | none => rfl
      | some cell =>
        have here : cell.id = key := by simpa using List.find?_some found
        have other : cell.id ≠ id := fun both => same (here.symm.trans both)
        simp [other]
    · rfl

/-- In a list without repeated keys a search finds the cell of the key. -/
theorem find?_iff {cells : List (Cell α)} (unique : (cells.map Cell.id).Nodup) {id : Nat}
    {cell : Cell α} :
    (cells.find? fun other => other.id = id) = some cell ↔ cell ∈ cells ∧ cell.id = id := by
  induction cells with
  | nil => simp
  | cons first rest ih =>
    obtain ⟨absent, unique⟩ := List.nodup_cons.mp unique
    rw [List.find?_cons]
    by_cases same : first.id = id
    · simp only [same, decide_true]
      constructor
      · rintro ⟨⟩
        exact ⟨List.mem_cons_self, same⟩
      · rintro ⟨member, key⟩
        rcases List.mem_cons.mp member with rfl | later
        · rfl
        · exact absurd (List.mem_map.mpr ⟨cell, later, key.trans same.symm⟩) absent
    · simp only [same, decide_false]
      rw [ih unique]
      constructor
      · rintro ⟨member, key⟩
        exact ⟨List.mem_cons_of_mem _ member, key⟩
      · rintro ⟨member, key⟩
        rcases List.mem_cons.mp member with rfl | later
        · exact absurd key same
        · exact ⟨later, key⟩

theorem Sound.find_iff {table : Buckets α} (sound : Sound table) {id : Nat} {cell : Cell α} :
    find table id = some cell ↔ cell ∈ table.flatten ∧ cell.id = id := by
  have inside : id % table.length < table.length := Nat.mod_lt _ sound.positive
  have bucket : table[id % table.length]? = some (chain table id) := by
    unfold chain
    rw [List.getElem?_eq_getElem inside]
    rfl
  unfold find
  rw [find?_iff (sound.unique _ _ bucket)]
  constructor
  · rintro ⟨member, key⟩
    exact ⟨List.mem_flatten.mpr ⟨_, List.mem_of_getElem? bucket, member⟩, key⟩
  · rintro ⟨member, rfl⟩
    obtain ⟨cells, listed, inChain⟩ := List.mem_flatten.mp member
    obtain ⟨j, at_j⟩ := List.mem_iff_getElem?.mp listed
    have place := sound.placed j cells at_j cell inChain
    rw [place, at_j] at bucket
    cases bucket
    exact ⟨inChain, rfl⟩

theorem Sound.flatten_nodup {table : Buckets α} (sound : Sound table) :
    (table.flatten.map Cell.id).Nodup := by
  rw [List.map_flatten]
  apply List.nodup_flatten.mpr
  constructor
  · intro ids member
    obtain ⟨cells, listed, rfl⟩ := List.mem_map.mp member
    obtain ⟨j, at_j⟩ := List.mem_iff_getElem?.mp listed
    exact sound.unique j cells at_j
  · rw [List.pairwise_map]
    apply List.pairwise_iff_getElem.mpr
    intro i j first second before id inFirst inSecond
    obtain ⟨cell, member, rfl⟩ := List.mem_map.mp inFirst
    obtain ⟨other, otherMember, same⟩ := List.mem_map.mp inSecond
    have here := sound.placed i _ (List.getElem?_eq_getElem first) cell member
    have there := sound.placed j _ (List.getElem?_eq_getElem second) other otherMember
    rw [same, here] at there
    omega

theorem Sound.push {table : Buckets α} (sound : Sound table) {cell : Cell α}
    (fresh : find table cell.id = none) : Sound (push table cell) := by
  constructor
  · simpa using sound.positive
  · intro j cells at_j other member
    rw [length_push]
    rw [getElem?_push] at at_j
    split at at_j
    · rename_i here
      obtain ⟨before, was, rfl⟩ := Option.map_eq_some_iff.mp at_j
      rcases List.mem_cons.mp member with rfl | earlier
      · exact here
      · exact sound.placed j before was other earlier
    · exact sound.placed j cells at_j other member
  · intro j cells at_j
    rw [getElem?_push] at at_j
    split at at_j
    · obtain ⟨before, was, rfl⟩ := Option.map_eq_some_iff.mp at_j
      apply List.nodup_cons.mpr
      refine ⟨?_, sound.unique j before was⟩
      intro repeated
      obtain ⟨other, member, same⟩ := List.mem_map.mp repeated
      have found := sound.find_iff.mpr
        ⟨List.mem_flatten.mpr ⟨before, List.mem_of_getElem? was, member⟩, same⟩
      rw [fresh] at found
      cases found
    · exact sound.unique j cells at_j

theorem Sound.update {table : Buckets α} (sound : Sound table) (id : Nat) (change : α → α) :
    Sound (update table id change) := by
  have kept (cell : Cell α) :
      (if cell.id = id then { cell with value := change cell.value } else cell).id = cell.id := by
    split
    · rfl
    · rfl
  constructor
  · simpa using sound.positive
  · intro j cells at_j other member
    rw [length_update]
    rw [getElem?_update] at at_j
    split at at_j
    · obtain ⟨before, was, rfl⟩ := Option.map_eq_some_iff.mp at_j
      obtain ⟨cell, inside, rfl⟩ := List.mem_map.mp member
      rw [kept]
      exact sound.placed j before was cell inside
    · exact sound.placed j cells at_j other member
  · intro j cells at_j
    rw [getElem?_update] at at_j
    split at at_j
    · obtain ⟨before, was, rfl⟩ := Option.map_eq_some_iff.mp at_j
      rw [List.map_map]
      have same : (Cell.id ∘ fun cell : Cell α =>
          if cell.id = id then { cell with value := change cell.value } else cell) = Cell.id :=
        funext kept
      rw [same]
      exact sound.unique j before was
    · exact sound.unique j cells at_j

theorem sound_replicate {count : Nat} (positive : 0 < count) :
    Sound (List.replicate count ([] : List (Cell α))) := by
  have empty (j : Nat) (cells : List (Cell α))
      (at_j : (List.replicate count ([] : List (Cell α)))[j]? = some cells) : cells = [] := by
    rw [List.getElem?_replicate] at at_j
    split at at_j
    · cases at_j
      rfl
    · cases at_j
  constructor
  · simpa using positive
  · intro j cells at_j cell member
    rw [empty j cells at_j] at member
    cases member
  · intro j cells at_j
    rw [empty j cells at_j]
    exact List.nodup_nil

theorem find_replicate (count id : Nat) :
    find (List.replicate count ([] : List (Cell α))) id = none := by
  unfold find chain
  rw [List.getElem?_replicate]
  split
  · rfl
  · rfl

/-- Cells with new and different keys, pushed one after the other. -/
theorem Sound.pushAll {cells : List (Cell α)} {table : Buckets α} (sound : Sound table)
    (unique : (cells.map Cell.id).Nodup) (fresh : ∀ cell ∈ cells, find table cell.id = none) :
    Sound (cells.foldl BucketTable.push table) ∧ ∀ id, find (cells.foldl BucketTable.push table) id =
      (cells.find? fun cell => cell.id = id).or (find table id) := by
  induction cells generalizing table with
  | nil => exact ⟨sound, fun _ => rfl⟩
  | cons cell rest ih =>
    obtain ⟨absent, uniqueRest⟩ := List.nodup_cons.mp unique
    have pushed := sound.push (fresh cell List.mem_cons_self)
    have freshRest : ∀ other ∈ rest, find (BucketTable.push table cell) other.id = none := by
      intro other member
      rw [find_push _ _ sound.positive, if_neg]
      · exact fresh other (List.mem_cons_of_mem _ member)
      · intro same
        exact absent (List.mem_map.mpr ⟨other, member, same.symm⟩)
    obtain ⟨soundAll, found⟩ := ih pushed uniqueRest freshRest
    refine ⟨soundAll, ?_⟩
    intro id
    rw [List.foldl_cons, found, find_push _ _ sound.positive, List.find?_cons]
    by_cases same : cell.id = id
    · have none : (rest.find? fun other => decide (other.id = id)) = none := by
        apply List.find?_eq_none.mpr
        intro other member
        have distinct : other.id ≠ id := fun both =>
          absent (List.mem_map.mpr ⟨other, member, both.trans same.symm⟩)
        simpa using distinct
      simp [same, none]
    · simp [same]

/-- A larger table holds the same cells. -/
theorem Sound.rehash {table : Buckets α} (sound : Sound table) {count : Nat}
    (positive : 0 < count) : Sound (rehash table count) ∧
      ∀ id, find (rehash table count) id = find table id := by
  obtain ⟨soundAll, found⟩ := (sound_replicate positive).pushAll sound.flatten_nodup
    (fun cell _ => find_replicate count cell.id)
  refine ⟨soundAll, fun id => ?_⟩
  rw [BucketTable.rehash, found, find_replicate, Option.or_none]
  apply Option.ext
  intro cell
  rw [find?_iff sound.flatten_nodup, sound.find_iff]

end Kynovo.Lib.BucketTable
