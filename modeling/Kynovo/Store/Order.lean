import Mathlib.Data.List.Pairwise
import Mathlib.Data.UInt
import Kynovo.Store.Treap

/-! The order of the keys. Comparing two keys is comparing them as byte strings,
so a tree whose entries are in ascending order is split exactly at a key. -/
namespace Kynovo.Store.Order
open Kynovo.Store.Treap
open Kynovo.Store.Treap.Nodes

/-! ## Comparing keys -/

theorem treapKeyCmp_lt_iff (a b : List UInt8) : treapKeyCmp a b = .lt ↔ a < b := by
  fun_induction treapKeyCmp a b with
  | case1 => simp
  | case2 => simp
  | case3 => simp
  | case4 a as b bs low => simp [List.cons_lt_cons_iff, low]
  | case5 a as b bs low high =>
    have differ : a ≠ b := by
      rintro rfl
      exact low high
    simp [List.cons_lt_cons_iff, low, differ]
  | case6 a as b bs low high ih =>
    have same : a = b := UInt8.le_antisymm (UInt8.not_lt.mp high) (UInt8.not_lt.mp low)
    simp [ih, same]

theorem treapKeyCmp_swap (a b : List UInt8) : treapKeyCmp b a = (treapKeyCmp a b).swap := by
  fun_induction treapKeyCmp a b with
  | case1 => rfl
  | case2 => rfl
  | case3 => rfl
  | case4 a as b bs low => simp [treapKeyCmp, low, UInt8.lt_asymm low]
  | case5 a as b bs low high => simp [treapKeyCmp, high]
  | case6 a as b bs low high ih => simp [treapKeyCmp, low, high, ih]

theorem treapKeyCmp_gt_iff (a b : List UInt8) : treapKeyCmp a b = .gt ↔ b < a := by
  rw [← treapKeyCmp_lt_iff b a, treapKeyCmp_swap a b]
  cases treapKeyCmp a b <;> simp

theorem treapKeyCmp_eq_iff (a b : List UInt8) : treapKeyCmp a b = .eq ↔ a = b := by
  fun_induction treapKeyCmp a b with
  | case1 => simp
  | case2 => simp
  | case3 => simp
  | case4 a as b bs low =>
    have differ : a ≠ b := UInt8.ne_of_lt low
    simp [differ]
  | case5 a as b bs low high =>
    have differ : a ≠ b := (UInt8.ne_of_lt high).symm
    simp [differ]
  | case6 a as b bs low high ih =>
    have same : a = b := UInt8.le_antisymm (UInt8.not_lt.mp high) (UInt8.not_lt.mp low)
    simp [ih, same]

theorem treapKeyCmp_not_lt_iff (a b : List UInt8) : treapKeyCmp a b ≠ .lt ↔ b ≤ a := by
  rw [ne_eq, treapKeyCmp_lt_iff]
  exact List.not_lt

theorem treapKeyCmp_not_gt_iff (a b : List UInt8) : treapKeyCmp a b ≠ .gt ↔ a ≤ b := by
  rw [ne_eq, treapKeyCmp_gt_iff]
  exact List.not_lt

/-! ## Ordered trees -/

/-- The keys of a list of entries ascend. -/
def Ascending (entries : List Entry) : Prop :=
  entries.Pairwise (fun first second => first.key < second.key)

/-- The keys of a tree, read from left to right, ascend. -/
def Ordered (tree : Nodes) : Prop := Ascending tree.entries

theorem ordered_node_iff {left right : Nodes} {entry : Entry} :
    Ordered (node left entry right) ↔ Ordered left ∧ Ordered right ∧
      (∀ low ∈ left.entries, low.key < entry.key) ∧
      (∀ high ∈ right.entries, entry.key < high.key) := by
  unfold Ordered Ascending
  rw [entries, List.pairwise_append, List.pairwise_cons]
  constructor
  · rintro ⟨lower, ⟨above, upper⟩, across⟩
    exact ⟨lower, upper, fun low inside => across low inside entry List.mem_cons_self, above⟩
  · rintro ⟨lower, upper, below, above⟩
    refine ⟨lower, ⟨above, upper⟩, ?_⟩
    intro low inside high member
    rcases List.mem_cons.mp member with rfl | further
    · exact below low inside
    · exact List.lt_trans (below low inside) (above high further)

/-- Cutting a list of entries at a key. -/
theorem filter_of_cut {p : Entry → Bool} {whole front back : List Entry} (cut : front ++ back = whole)
    (holds : ∀ entry ∈ front, p entry = true) (fails : ∀ entry ∈ back, p entry = false) :
    whole.filter p = front ∧ whole.filter (fun entry => !p entry) = back := by
  subst cut
  have none : back.filter p = [] := List.filter_eq_nil_iff.mpr (fun entry inside => by simp [fails entry inside])
  have all : front.filter (fun entry => !p entry) = [] :=
    List.filter_eq_nil_iff.mpr (fun entry inside => by simp [holds entry inside])
  have kept : back.filter (fun entry => !p entry) = back :=
    List.filter_eq_self.mpr (fun entry inside => by simp [fails entry inside])
  rw [List.filter_append, List.filter_append, none, all, kept, List.filter_eq_self.mpr holds]
  simp

/-- Left of a split point every key is below it, right of it none is. -/
theorem treapSplit_bounds {key : List UInt8} {tree : Nodes} (ordered : Ordered tree) :
    (∀ entry ∈ (treapSplit key tree).1.entries, entry.key < key) ∧
      (∀ entry ∈ (treapSplit key tree).2.entries, key ≤ entry.key) := by
  induction tree with
  | nil => simp [treapSplit, entries]
  | node left entry right ihl ihr =>
    obtain ⟨lower, upper, below, above⟩ := ordered_node_iff.mp ordered
    unfold treapSplit
    by_cases low : treapKeyCmp key entry.key ≠ .gt
    · rw [if_pos low]
      have here : key ≤ entry.key := (treapKeyCmp_not_gt_iff _ _).mp low
      obtain ⟨front, back⟩ := ihl lower
      refine ⟨front, ?_⟩
      intro found member
      rcases List.mem_append.mp member with inside | rest
      · exact back found inside
      · rcases List.mem_cons.mp rest with rfl | further
        · exact here
        · exact List.le_of_lt (List.lt_of_le_of_lt here (above found further))
    · rw [if_neg low]
      have here : entry.key < key := (treapKeyCmp_gt_iff _ _).mp (not_ne_iff.mp low)
      obtain ⟨front, back⟩ := ihr upper
      refine ⟨?_, back⟩
      intro found member
      rcases List.mem_append.mp member with inside | rest
      · exact List.lt_trans (below found inside) here
      · rcases List.mem_cons.mp rest with rfl | further
        · exact here
        · exact front found further

theorem ordered_split {key : List UInt8} {tree : Nodes} (ordered : Ordered tree) :
    Ordered (treapSplit key tree).1 ∧ Ordered (treapSplit key tree).2 := by
  have whole := ordered
  unfold Ordered at whole
  rw [← treapSplit_entries key tree] at whole
  exact ⟨(List.pairwise_append.mp whole).1, (List.pairwise_append.mp whole).2.1⟩

/-! ## Looking up and replacing a key -/

theorem find_none_of_ne {key : List UInt8} {list : List Entry}
    (differ : ∀ entry ∈ list, entry.key ≠ key) :
    list.find? (fun entry => decide (entry.key = key)) = none := by
  rw [List.find?_eq_none]
  intro entry inside
  simpa using differ entry inside

/-- The search finds the entry of the key among all entries. -/
theorem treapFind_eq_find {key : List UInt8} {tree : Nodes} (ordered : Ordered tree) :
    treapFind tree key = tree.entries.find? (fun entry => decide (entry.key = key)) := by
  induction tree with
  | nil => rfl
  | node left entry right ihl ihr =>
    obtain ⟨lower, upper, below, above⟩ := ordered_node_iff.mp ordered
    unfold treapFind
    rw [entries, List.find?_append, List.find?_cons]
    cases compared : treapKeyCmp key entry.key with
    | eq =>
      have same : key = entry.key := (treapKeyCmp_eq_iff _ _).mp compared
      have before : left.entries.find? (fun entry => decide (entry.key = key)) = none := by
        apply find_none_of_ne
        rintro low inside equal
        exact List.lt_irrefl _ (same ▸ equal ▸ below low inside)
      rw [before]
      simp [same]
    | lt =>
      have less : key < entry.key := (treapKeyCmp_lt_iff _ _).mp compared
      have differ : entry.key ≠ key := fun equal => List.lt_irrefl _ (equal ▸ less)
      have behind : right.entries.find? (fun entry => decide (entry.key = key)) = none := by
        apply find_none_of_ne
        rintro high inside equal
        exact List.lt_irrefl _ (List.lt_trans less (equal ▸ above high inside))
      dsimp only
      rw [ihl lower, behind]
      simp [differ]
    | gt =>
      have more : entry.key < key := (treapKeyCmp_gt_iff _ _).mp compared
      have differ : entry.key ≠ key := fun equal => List.lt_irrefl _ (equal ▸ more)
      have before : left.entries.find? (fun entry => decide (entry.key = key)) = none := by
        apply find_none_of_ne
        rintro low inside equal
        exact List.lt_irrefl _ (List.lt_trans more (equal ▸ below low inside))
      dsimp only
      rw [ihr upper, before]
      simp [differ]

/-- Where a key stands in an ordered tree: everything below it, the entry that has
it, if one does, and everything above it. -/
structure Around (tree : Nodes) (key : List UInt8) where
  front : List Entry
  held : Option Entry
  back : List Entry
  whole : tree.entries = front ++ held.toList ++ back
  named : ∀ entry ∈ held, entry.key = key
  below : ∀ entry ∈ front, entry.key < key
  above : ∀ entry ∈ back, key < entry.key

/-- The split at the key shows where it stands. -/
def around {tree : Nodes} (ordered : Ordered tree) (key : List UInt8) : Around tree key where
  front := (treapSplit key tree).1.entries
  held := if holdsAtMin (treapSplit key tree).2 key then (treapSplit key tree).2.entries.head?
    else none
  back := (withoutMin (treapSplit key tree).2 key).entries
  whole := by
    rw [← treapSplit_entries key tree, withoutMin_entries, List.append_assoc]
    congr 1
    split
    · cases (treapSplit key tree).2.entries <;> rfl
    · rfl
  named := by
    intro entry member
    split at member
    · rename_i holds
      rw [holdsAtMin, leftmost_eq_head, member] at holds
      exact (treapKeyCmp_eq_iff _ _).mp (by simpa using holds)
    · cases member
  below := (treapSplit_bounds ordered).1
  above := by
    obtain ⟨-, upper⟩ := @ordered_split key tree ordered
    obtain ⟨-, bound⟩ := @treapSplit_bounds key tree ordered
    rw [withoutMin_entries]
    unfold Ordered Ascending at upper
    cases shape : (treapSplit key tree).2.entries with
    | nil => simp
    | cons first rest =>
      rw [shape] at upper bound
      have further := (List.pairwise_cons.mp upper).1
      have least : key ≤ first.key := bound first List.mem_cons_self
      have behind : ∀ entry ∈ rest, key < entry.key := fun entry inside =>
        List.lt_of_le_of_lt least (further entry inside)
      split
      · exact behind
      · rename_i absent
        intro entry member
        rcases List.mem_cons.mp member with rfl | later
        · rw [holdsAtMin, leftmost_eq_head, shape] at absent
          have differ : entry.key ≠ key := by
            intro equal
            apply absent
            simpa using (treapKeyCmp_eq_iff _ _).mpr equal
          by_contra reached
          exact differ (List.le_antisymm (List.not_lt.mp reached) least)
        · exact behind entry later

theorem Around.find {tree : Nodes} {key : List UInt8} (place : Around tree key)
    (ordered : Ordered tree) : treapFind tree key = place.held := by
  have before : place.front.find? (fun entry => decide (entry.key = key)) = none := by
    apply find_none_of_ne
    rintro entry inside equal
    exact List.lt_irrefl _ (equal ▸ place.below entry inside)
  have behind : place.back.find? (fun entry => decide (entry.key = key)) = none := by
    apply find_none_of_ne
    rintro entry inside equal
    exact List.lt_irrefl _ (equal ▸ place.above entry inside)
  rw [treapFind_eq_find ordered, place.whole, List.find?_append, List.find?_append, before, behind]
  have named := place.named
  cases held : place.held with
  | none => rfl
  | some entry =>
    rw [held] at named
    simp [named entry rfl]

/-- A key that is put where it belongs keeps the entries in order. -/
theorem ascending_insert {front back : List Entry} {entry : Entry}
    (whole : Ascending (front ++ back)) (below : ∀ low ∈ front, low.key < entry.key)
    (above : ∀ high ∈ back, entry.key < high.key) : Ascending (front ++ entry :: back) := by
  unfold Ascending at *
  rw [List.pairwise_append] at whole
  rw [List.pairwise_append, List.pairwise_cons]
  refine ⟨whole.1, ⟨above, whole.2.1⟩, ?_⟩
  intro low inside high member
  rcases List.mem_cons.mp member with rfl | further
  · exact below low inside
  · exact whole.2.2 low inside high further

theorem setRoot_around {root : Nodes} (ordered : Ordered root) (entry : Entry) :
    (setRoot root entry).entries =
      (around ordered entry.key).front ++ entry :: (around ordered entry.key).back :=
  setRoot_entries root entry

theorem Around.without {tree : Nodes} {key : List UInt8} (place : Around tree key)
    (ordered : Ordered tree) : Ascending (place.front ++ place.back) := by
  apply List.Pairwise.sublist _ ordered
  rw [place.whole, List.append_assoc]
  exact (List.sublist_append_right _ _).append_left _

theorem ordered_setRoot {root : Nodes} (ordered : Ordered root) (entry : Entry) :
    Ordered (setRoot root entry) := by
  unfold Ordered
  rw [setRoot_around ordered]
  exact ascending_insert ((around ordered entry.key).without ordered)
    (around ordered entry.key).below (around ordered entry.key).above

/-- After a set the key has the new entry and every other key what it had. -/
theorem treapFind_setRoot {root : Nodes} (ordered : Ordered root) (entry : Entry)
    (key : List UInt8) :
    treapFind (setRoot root entry) key =
      if entry.key = key then some entry else treapFind root key := by
  rw [treapFind_eq_find (ordered_setRoot ordered entry), treapFind_eq_find ordered,
    setRoot_around ordered, (around ordered entry.key).whole, List.find?_append, List.find?_append,
    List.find?_append, List.find?_cons]
  by_cases same : entry.key = key
  · have before : (around ordered entry.key).front.find? (fun found => decide (found.key = key)) =
        none := by
      apply find_none_of_ne
      rintro found inside equal
      exact List.lt_irrefl _ (same ▸ equal ▸ (around ordered entry.key).below found inside)
    rw [before]
    simp [same]
  · have unheld : (around ordered entry.key).held.toList.find? (fun found => decide (found.key = key)) =
        none := by
      apply find_none_of_ne
      intro found inside equal
      exact same (((around ordered entry.key).named found (Option.mem_toList.mp inside)).symm.trans
        equal)
    rw [unheld]
    simp [same]

theorem ordered_removed {root : Nodes} (ordered : Ordered root) (key : List UInt8)
    (holds : holdsAtMin (treapSplit key root).2 key = true) :
    Ordered (treapMerge (treapSplit key root).1 (treapRemoveMin (treapSplit key root).2)) := by
  unfold Ordered
  rw [treapMerge_entries]
  have kept := (around ordered key).without ordered
  simp only [around, withoutMin, holds, if_true] at kept
  exact kept

end Kynovo.Store.Order
