import Kynovo.Store.RangeProofs

/-! The heap order. A node stands above the nodes below it by its priority, and among equal
priorities by its key. Splitting and removing the smallest entry take nodes away from under a
node; a merge puts the higher of two roots on top, which keeps the order because two trees
that are merged have no key in common. -/
namespace Kynovo.Store.Heap
open Kynovo.Store.Treap
open Kynovo.Store.Treap.Nodes
open Kynovo.Store.Order

/-- The order in which nodes stand above one another. -/
def Beats (a b : Entry) : Prop := treapPriorityCmp a b = .gt

theorem beats_iff (a b : Entry) :
    Beats a b ↔ b.priority < a.priority ∨ (a.priority = b.priority ∧ b.key < a.key) := by
  unfold Beats treapPriorityCmp
  by_cases higher : a.priority > b.priority
  · simp [higher]
  · rw [if_neg higher]
    by_cases lower : a.priority < b.priority
    · have differ : a.priority ≠ b.priority := UInt64.ne_of_lt lower
      simp [lower, higher, differ]
    · have same : a.priority = b.priority :=
        UInt64.le_antisymm (UInt64.not_lt.mp higher) (UInt64.not_lt.mp lower)
      simp [same, treapKeyCmp_gt_iff]

theorem Beats.trans {a b c : Entry} (first : Beats a b) (second : Beats b c) : Beats a c := by
  rw [beats_iff] at first second ⊢
  rcases first with above | ⟨same, above⟩
  · rcases second with further | ⟨equal, -⟩
    · exact .inl (UInt64.lt_trans further above)
    · exact .inl (equal ▸ above)
  · rcases second with further | ⟨equal, further⟩
    · exact .inl (same ▸ further)
    · exact .inr ⟨same.trans equal, List.lt_trans further above⟩

theorem Beats.irrefl (a : Entry) : ¬Beats a a := by
  rw [beats_iff]
  rintro (above | ⟨-, above⟩)
  · exact UInt64.lt_irrefl _ above
  · exact List.lt_irrefl _ above

/-- Of two entries with different keys one stands above the other. -/
theorem Beats.of_not {a b : Entry} (differ : a.key ≠ b.key) (lower : ¬Beats a b) : Beats b a := by
  rw [beats_iff, not_or, not_and] at lower
  rw [beats_iff]
  by_cases below : a.priority < b.priority
  · exact .inl below
  · have same : a.priority = b.priority :=
      UInt64.le_antisymm (UInt64.not_lt.mp lower.1) (UInt64.not_lt.mp below)
    have least : a.key ≤ b.key := List.not_lt.mp (lower.2 same)
    refine .inr ⟨same.symm, ?_⟩
    by_contra reached
    exact differ (List.le_antisymm least (List.not_lt.mp reached))

/-- Every node stands above all nodes below it. -/
def Heaped : Nodes → Prop
  | nil => True
  | node left entry right => (∀ low ∈ left.entries, Beats entry low) ∧
      (∀ high ∈ right.entries, Beats entry high) ∧ Heaped left ∧ Heaped right

theorem heaped_split {key : List UInt8} {tree : Nodes} (heaped : Heaped tree) :
    Heaped (treapSplit key tree).1 ∧ Heaped (treapSplit key tree).2 := by
  induction tree with
  | nil => exact ⟨trivial, trivial⟩
  | node left entry right ihl ihr =>
    obtain ⟨lower, upper, below, above⟩ := heaped
    unfold treapSplit
    by_cases low : treapKeyCmp key entry.key ≠ .gt
    · rw [if_pos low]
      refine ⟨(ihl below).1, ?_, upper, (ihl below).2, above⟩
      intro found inside
      apply lower
      rw [← treapSplit_entries key left]
      exact List.mem_append_right _ inside
    · rw [if_neg low]
      refine ⟨⟨lower, ?_, below, (ihr above).1⟩, (ihr above).2⟩
      intro found inside
      apply upper
      rw [← treapSplit_entries key right]
      exact List.mem_append_left _ inside

theorem heaped_removeMin {tree : Nodes} (heaped : Heaped tree) : Heaped (treapRemoveMin tree) := by
  fun_induction treapRemoveMin tree with
  | case1 => exact heaped
  | case2 entry right => exact heaped.2.2.2
  | case3 ll le lr entry right ih =>
    obtain ⟨lower, upper, below, above⟩ := heaped
    refine ⟨?_, upper, ih below, above⟩
    intro found inside
    rw [treapRemoveMin_entries] at inside
    exact lower found (List.mem_of_mem_tail inside)

theorem heaped_withoutMin {tree : Nodes} {key : List UInt8} (heaped : Heaped tree) :
    Heaped (withoutMin tree key) := by
  unfold withoutMin
  split
  · exact heaped_removeMin heaped
  · exact heaped

/-- No key of one list is a key of the other. -/
def Apart (front back : List Entry) : Prop := ∀ low ∈ front, ∀ high ∈ back, low.key ≠ high.key

/-- The descent of a merge: `below` merges what hangs to the right of `top`. -/
theorem heaped_mergeUnder {left right : Nodes} {top : Entry} {below : Nodes → Nodes}
    (whole : Heaped (node left top right))
    (joins : ∀ tree, (below tree).entries = right.entries ++ tree.entries)
    (heaps : ∀ tree, Heaped tree → Apart right.entries tree.entries → Heaped (below tree))
    {tree : Nodes} (heaped : Heaped tree) (apart : Apart (node left top right).entries tree.entries) :
    Heaped (mergeUnder left top (node left top right) below tree) := by
  induction tree with
  | nil => exact whole
  | node rl re rr ihl _ =>
    have here : re ∈ (node rl re rr).entries := List.mem_append_right _ List.mem_cons_self
    have topmost : top ∈ (node left top right).entries := List.mem_append_right _ List.mem_cons_self
    unfold mergeUnder
    by_cases higher : treapPriorityCmp top re = .gt
    · rw [if_pos higher]
      refine ⟨whole.1, ?_, whole.2.2.1, heaps _ heaped ?_⟩
      · intro found inside
        rw [joins] at inside
        rcases List.mem_append.mp inside with own | other
        · exact whole.2.1 found own
        · rcases List.mem_append.mp other with low | rest
          · exact Beats.trans higher (heaped.1 found low)
          · rcases List.mem_cons.mp rest with rfl | high
            · exact higher
            · exact Beats.trans higher (heaped.2.1 found high)
      · exact fun low inside high member =>
          apart low (List.mem_append_right _ (List.mem_cons_of_mem _ inside)) high member
    · rw [if_neg higher]
      have atop : Beats re top := Beats.of_not (apart top topmost re here) higher
      have beside : Apart (node left top right).entries rl.entries := fun low inside high member =>
        apart low inside high (List.mem_append_left _ member)
      refine ⟨?_, heaped.2.1, ihl heaped.2.2.1 beside, heaped.2.2.2⟩
      intro found inside
      have merged : (mergeUnder left top (node left top right) below rl).entries =
          (node left top right).entries ++ rl.entries :=
        mergeUnder_entries rfl joins rfl rl
      rw [merged] at inside
      rcases List.mem_append.mp inside with own | other
      · rcases List.mem_append.mp own with low | rest
        · exact atop.trans (whole.1 found low)
        · rcases List.mem_cons.mp rest with rfl | high
          · exact atop
          · exact atop.trans (whole.2.1 found high)
      · exact heaped.1 found other

theorem heaped_merge {left right : Nodes} (lower : Heaped left) (upper : Heaped right)
    (apart : Apart left.entries right.entries) : Heaped (treapMerge left right) := by
  induction left generalizing right with
  | nil => exact upper
  | node ll le lr _ ihr =>
    exact heaped_mergeUnder lower (treapMerge_entries lr) (fun tree heaped beside => ihr lower.2.2.2 heaped beside)
      upper apart

/-- Ascending entries in front of others have no key in common with them. -/
theorem Apart.of_lt {front back : List Entry} {key : List UInt8} (below : ∀ low ∈ front, low.key < key)
    (above : ∀ high ∈ back, key ≤ high.key) : Apart front back := by
  intro low inside high member same
  exact List.not_lt.mpr (above high member) (same ▸ below low inside)

theorem heaped_setRoot {root : Nodes} (ordered : Ordered root) (heaped : Heaped root) (entry : Entry) :
    Heaped (setRoot root entry) := by
  obtain ⟨lower, upper⟩ := @heaped_split entry.key root heaped
  have single : Heaped (node nil entry nil) := ⟨nofun, nofun, trivial, trivial⟩
  have behind : ∀ high ∈ (withoutMin (treapSplit entry.key root).2 entry.key).entries, entry.key < high.key :=
    (around ordered entry.key).above
  have middle : Heaped (treapMerge (node nil entry nil) (withoutMin (treapSplit entry.key root).2 entry.key)) := by
    refine heaped_merge single (heaped_withoutMin upper) ?_
    intro low inside high member same
    cases List.mem_singleton.mp inside
    exact List.lt_irrefl _ (same ▸ behind high member)
  refine heaped_merge lower middle (Apart.of_lt (treapSplit_bounds ordered).1 ?_)
  intro high member
  rw [treapMerge_entries] at member
  rcases List.mem_cons.mp member with rfl | further
  · exact List.le_refl _
  · exact List.le_of_lt (behind high further)

/-- What is left when the entry at the split point goes. -/
theorem heaped_removed {root : Nodes} (ordered : Ordered root) (heaped : Heaped root) (key : List UInt8) :
    Heaped (treapMerge (treapSplit key root).1 (treapRemoveMin (treapSplit key root).2)) := by
  obtain ⟨lower, upper⟩ := @heaped_split key root heaped
  obtain ⟨front, back⟩ := @treapSplit_bounds key root ordered
  refine heaped_merge lower (heaped_removeMin upper) (Apart.of_lt front ?_)
  intro high member
  rw [treapRemoveMin_entries] at member
  exact back high (List.mem_of_mem_tail member)

/-- The parts beside a range are apart. -/
theorem heaped_rangeParts {root : Nodes} (heaped : Heaped root) (first last : List UInt8) :
    Heaped (rangeParts root first last).1 ∧ Heaped (rangeParts root first last).2.2 := by
  have cut : ∀ key, Heaped (treapSplit key root).1 ∧ Heaped (treapSplit key root).2 :=
    fun key => heaped_split heaped
  unfold rangeParts
  by_cases low : first = []
  · by_cases high : last = []
    · simp only [low, high, if_true]
      exact ⟨trivial, trivial⟩
    · simp only [low, high, if_true, if_false]
      exact ⟨trivial, (cut last).2⟩
  · by_cases high : last = []
    · simp only [low, high, if_true, if_false]
      exact ⟨(cut first).1, trivial⟩
    · simp only [low, high, if_false]
      exact ⟨(cut first).1, (heaped_split (cut first).2).2⟩

theorem heaped_withoutRange {root : Nodes} (ordered : Ordered root) (heaped : Heaped root)
    (first last : List UInt8) :
    Heaped (treapMerge (rangeParts root first last).1 (rangeParts root first last).2.2) := by
  obtain ⟨lower, upper⟩ := heaped_rangeParts heaped first last
  refine heaped_merge lower upper fun low inside high member same => ?_
  have whole := ordered
  unfold Ordered Ascending at whole
  rw [← rangeParts_entries root first last] at whole
  have less := (List.pairwise_append.mp whole).2.2 low inside high (List.mem_append_right _ member)
  exact List.lt_irrefl _ (same ▸ less)

/-! ## Loading -/

theorem lt_iff_beats (a b : Entry) : treapPriorityCmp a b = .lt ↔ Beats b a := by
  rw [beats_iff]
  unfold treapPriorityCmp
  by_cases higher : a.priority > b.priority
  · have differ : b.priority ≠ a.priority := UInt64.ne_of_lt higher
    simp [higher, differ, UInt64.lt_asymm higher]
  · rw [if_neg higher]
    by_cases lower : a.priority < b.priority
    · simp [lower]
    · have same : b.priority = a.priority :=
        UInt64.le_antisymm (UInt64.not_lt.mp lower) (UInt64.not_lt.mp higher)
      simp [same, treapKeyCmp_lt_iff]

/-- The nodes of a spine stand above their left sides and above the nodes that are deeper. -/
def SpineHeaped : Stream.Spine → Prop
  | [] => True
  | (left, top) :: rest => Heaped left ∧ (∀ low ∈ left.entries, Beats top low) ∧
      (∀ pair ∈ rest, Beats pair.2 top) ∧ SpineHeaped rest

theorem heaped_closeSpine {spine : Stream.Spine} {right : Nodes} (spined : SpineHeaped spine)
    (finished : Heaped right) (under : ∀ pair ∈ spine, ∀ found ∈ right.entries, Beats pair.2 found) :
    Heaped (Stream.closeSpine spine right) := by
  induction spine generalizing right with
  | nil => exact finished
  | cons pair spine ih =>
    obtain ⟨left, top⟩ := pair
    obtain ⟨lower, atop, deeper, rest⟩ := spined
    have here := under (left, top) List.mem_cons_self
    refine ih rest ⟨atop, here, lower, finished⟩ fun pair member found inside => ?_
    have above := deeper pair member
    rcases List.mem_append.mp inside with low | further
    · exact above.trans (atop found low)
    · rcases List.mem_cons.mp further with rfl | high
      · exact above
      · exact under pair (List.mem_cons_of_mem _ member) found high

/-- What a new entry meets on the spine. -/
structure Popped (entry : Entry) (rest : Stream.Spine) (last : Nodes) : Prop where
  spined : SpineHeaped rest
  heaped : Heaped last
  atop : ∀ low ∈ last.entries, Beats entry low
  under : ∀ pair ∈ rest, Beats pair.2 entry

theorem popLower_heaped {entry : Entry} {spine : Stream.Spine} {last : Nodes} (spined : SpineHeaped spine)
    (differ : ∀ pair ∈ spine, pair.2.key ≠ entry.key) (finished : Heaped last)
    (atop : ∀ low ∈ last.entries, Beats entry low)
    (under : ∀ pair ∈ spine, ∀ found ∈ last.entries, Beats pair.2 found) :
    Popped entry (Stream.popLower entry spine last).1 (Stream.popLower entry spine last).2 := by
  induction spine generalizing last with
  | nil => exact ⟨trivial, finished, atop, nofun⟩
  | cons pair spine ih =>
    obtain ⟨left, top⟩ := pair
    have whole := spined
    obtain ⟨lower, side, deeper, rest⟩ := spined
    have here := under (left, top) List.mem_cons_self
    unfold Stream.popLower
    by_cases lowers : treapPriorityCmp top entry = .lt
    · rw [if_pos lowers]
      have above : Beats entry top := (lt_iff_beats top entry).mp lowers
      refine ih rest (fun pair member => differ pair (List.mem_cons_of_mem _ member))
        ⟨side, here, lower, finished⟩ ?_ ?_
      · intro found inside
        rcases List.mem_append.mp inside with low | further
        · exact above.trans (side found low)
        · rcases List.mem_cons.mp further with rfl | high
          · exact above
          · exact atop found high
      · intro pair member found inside
        have higher := deeper pair member
        rcases List.mem_append.mp inside with low | further
        · exact higher.trans (side found low)
        · rcases List.mem_cons.mp further with rfl | high
          · exact higher
          · exact under pair (List.mem_cons_of_mem _ member) found high
    · rw [if_neg lowers]
      have above : Beats top entry :=
        Beats.of_not (differ (left, top) List.mem_cons_self).symm
          (fun beaten => lowers ((lt_iff_beats top entry).mpr beaten))
      refine ⟨whole, finished, atop, fun pair member => ?_⟩
      rcases List.mem_cons.mp member with rfl | further
      · exact above
      · exact (deeper pair further).trans above

/-- The entries on a spine are among its entries. -/
theorem mem_spineEntries {spine : Stream.Spine} {pair : Nodes × Entry} (member : pair ∈ spine) :
    pair.2 ∈ Stream.spineEntries spine := by
  unfold Stream.spineEntries
  rw [List.mem_flatMap]
  exact ⟨pair, List.mem_reverse.mpr member, List.mem_append_right _ (List.mem_singleton_self _)⟩

theorem foldl_pushEntry_heaped {loaded : List Entry} {spine : Stream.Spine} (spined : SpineHeaped spine)
    (ascending : Ascending (Stream.spineEntries spine ++ loaded)) :
    SpineHeaped (loaded.foldl Stream.pushEntry spine) := by
  induction loaded generalizing spine with
  | nil => exact spined
  | cons entry loaded ih =>
    have differ : ∀ pair ∈ spine, pair.2.key ≠ entry.key := by
      intro pair member same
      have less := (List.pairwise_append.mp ascending).2.2 pair.2 (mem_spineEntries member) entry
        List.mem_cons_self
      exact List.lt_irrefl _ (same ▸ less)
    have popped : Popped entry _ _ := @popLower_heaped entry spine nil spined differ trivial
      (fun _ inside => absurd inside List.not_mem_nil) (fun _ _ _ inside => absurd inside List.not_mem_nil)
    refine ih ⟨popped.heaped, popped.atop, popped.under, popped.spined⟩ ?_
    rw [Stream.pushEntry_entries, List.append_assoc]
    exact ascending

/-- Entries in ascending order are loaded into a heap. -/
theorem heaped_loaded {loaded : List Entry} (ascending : Ascending loaded) :
    Heaped (Stream.closeSpine (loaded.foldl Stream.pushEntry []) nil) :=
  heaped_closeSpine (foldl_pushEntry_heaped trivial ascending) trivial
    (fun _ _ _ inside => absurd inside List.not_mem_nil)

end Kynovo.Store.Heap
