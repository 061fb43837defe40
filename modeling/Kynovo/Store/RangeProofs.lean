import Kynovo.Store.Sized

/-! Order statistics and range operations against the sorted list of entries. Every
treap that a run of operations leaves is ordered and has its sizes and its count
right; on such a treap each walk gives what the list of its entries says. -/
namespace Kynovo.Store.RangeProofs
open Kynovo.Store.Treap (Entry Nodes treapKeyCmp treapPriorityCmp treapNodeInit)
open Kynovo.Store.Order
open Kynovo.Store.Sized
open Kynovo.Store.Sized.SizedNodes

/-! ## What a run of operations leaves -/

structure Valid (t : SizedTree) : Prop where
  ordered : Ordered (plain t.root)
  counted : Counted t.root
  count : t.count = (entriesOf t).length

theorem Valid.ascending {t : SizedTree} (valid : Valid t) : Ascending (entriesOf t) :=
  valid.ordered

/-- The treaps that runs of operations lead to. Operations go to a working copy as
they go to a treap of its own; a load takes a serialized stream, whose keys ascend. -/
inductive Reachable : SizedTree → Prop where
  | create (seed : UInt64) : Reachable (treapCreate seed)
  | set {t after : SizedTree} (key value : List UInt8) :
    Reachable t → treapSet t key value = some after → Reachable after
  | delete {t after : SizedTree} {found : Bool} (key : List UInt8) :
    Reachable t → treapDelete t key = some (after, found) → Reachable after
  | deleteRange {t : SizedTree} (first last : List UInt8) :
    Reachable t → Reachable (treapDeleteRange t first last).1
  | fork {t : SizedTree} : Reachable t → Reachable (treapFork t)
  | commit {copy t : SizedTree} : Reachable copy → Reachable t → Reachable (treapCommit copy t)
  | load {t after : SizedTree} (records : List (List UInt8 × List UInt8)) :
    Reachable t → (records.map Prod.fst).Pairwise (· < ·) → treapLoad t records = some after →
      Reachable after

theorem treapNodeInit_key {seed : UInt64} {key value : List UInt8} {entry : Entry}
    (made : treapNodeInit seed key value = some entry) : entry.key = key := by
  unfold treapNodeInit at made
  split at made
  · cases made
    rfl
  · cases made

/-- A set changes the root as it does in the tree without sizes. -/
theorem treapSet_plain {t after : SizedTree} {key value : List UInt8}
    (done : treapSet t key value = some after) :
    ∃ entry, treapNodeInit t.seed key value = some entry ∧ after.seed = t.seed ∧
      plain after.root = Treap.setRoot (plain t.root) entry := by
  unfold Sized.treapSet at done
  obtain ⟨entry, made, rfl⟩ := Option.map_eq_some_iff.mp done
  have same : entry.key = key := treapNodeInit_key made
  obtain ⟨left, right⟩ := treapSplit_plain key t.root
  refine ⟨entry, made, rfl, ?_⟩
  dsimp only
  rw [treapMerge_plain, treapMerge_plain, withoutMin_plain, left, right, Treap.setRoot, same]
  rfl

theorem valid_set {t after : SizedTree} {key value : List UInt8} (valid : Valid t)
    (done : treapSet t key value = some after) : Valid after := by
  obtain ⟨entry, made, -, shape⟩ := treapSet_plain done
  have same : entry.key = key := treapNodeInit_key made
  obtain ⟨-, right⟩ := treapSplit_plain key t.root
  obtain ⟨lower, upper⟩ := @treapSplit_counted key t.root valid.counted
  unfold Sized.treapSet at done
  rw [made] at done
  cases done
  constructor
  · rw [shape]
    exact ordered_setRoot valid.ordered entry
  · exact treapMerge_counted lower (treapMerge_counted ⟨rfl, trivial, trivial⟩
      (withoutMin_counted upper))
  · dsimp only [entriesOf] at shape ⊢
    rw [shape, Treap.setRoot_length, holdsAtMin_plain, right, same, valid.count]
    rfl

/-- A delete either takes the entry at the split point out or leaves the tree alone. -/
theorem treapDelete_plain {t after : SizedTree} {key : List UInt8} {found : Bool}
    (done : treapDelete t key = some (after, found)) :
    (Treap.holdsAtMin (Treap.treapSplit key (plain t.root)).2 key = true ∧ after.seed = t.seed ∧
      after.count = t.count - 1 ∧ after.root = treapMerge (treapSplit key t.root).1
        (treapRemoveMin (treapSplit key t.root).2) ∧
      plain after.root = Treap.treapMerge (Treap.treapSplit key (plain t.root)).1
        (Treap.treapRemoveMin (Treap.treapSplit key (plain t.root)).2)) ∨
    (Treap.holdsAtMin (Treap.treapSplit key (plain t.root)).2 key = false ∧ after = t) := by
  obtain ⟨left, right⟩ := treapSplit_plain key t.root
  unfold Sized.treapDelete at done
  split at done
  · cases done
  · dsimp only at done
    rw [holdsAtMin_plain, right] at done
    split at done
    · rename_i holds
      cases done
      refine .inl ⟨holds, rfl, rfl, rfl, ?_⟩
      rw [treapMerge_plain, treapRemoveMin_plain, left, right]
    · rename_i missing
      cases done
      exact .inr ⟨Bool.eq_false_iff.mpr missing, rfl⟩

theorem valid_delete {t after : SizedTree} {key : List UInt8} {found : Bool} (valid : Valid t)
    (done : treapDelete t key = some (after, found)) : Valid after := by
  rcases treapDelete_plain done with ⟨holds, -, fewer, built, shape⟩ | ⟨-, rfl⟩
  · obtain ⟨lower, upper⟩ := @treapSplit_counted key t.root valid.counted
    constructor
    · rw [shape]
      exact ordered_removed valid.ordered key holds
    · rw [built]
      exact treapMerge_counted lower (treapRemoveMin_counted upper)
    · unfold entriesOf
      rw [shape, Treap.removed_length _ _ holds, fewer, valid.count]
      rfl
  · exact valid

/-! ## Range deletion -/

theorem nodeCount_eq (tree : SizedNodes) : nodeCount tree = (plain tree).entries.length := by
  induction tree with
  | nil => rfl
  | node size left entry right ihl ihr =>
    rw [plain_node, Nodes.entries, List.length_append, List.length_cons, nodeCount]
    omega

/-- Every node below the stack is counted once. -/
theorem pushFreeTree_eq (stack : List Frame) (removed : Nat) :
    treapOpPushFreeTree stack removed = removed + below stack := by
  fun_induction treapOpPushFreeTree stack removed with
  | case1 removed => simp [below]
  | case2 left entry right stack removed ih =>
    rw [ih, below_pushChild, below_pushChild, below_cons]
    omega

theorem rangeParts_plain (root : SizedNodes) (first last : List UInt8) :
    plain (rangeParts root first last).1 = (Treap.rangeParts (plain root) first last).1 ∧
      plain (rangeParts root first last).2.1 = (Treap.rangeParts (plain root) first last).2.1 ∧
      plain (rangeParts root first last).2.2 = (Treap.rangeParts (plain root) first last).2.2 := by
  unfold Sized.rangeParts Treap.rangeParts
  by_cases low : first = []
  · by_cases high : last = []
    · simp [low, high, plain]
    · simp [low, high, plain, treapSplit_plain]
  · by_cases high : last = []
    · simp [low, high, plain, treapSplit_plain]
    · simp [low, high, treapSplit_plain]

theorem rangeParts_counted {root : SizedNodes} (counted : Counted root) (first last : List UInt8) :
    Counted (rangeParts root first last).1 ∧ Counted (rangeParts root first last).2.2 := by
  unfold Sized.rangeParts
  by_cases low : first = []
  · by_cases high : last = []
    · simp [low, high, Counted]
    · simpa [low, high, Counted] using (@treapSplit_counted last root counted).2
  · obtain ⟨lower, upper⟩ := @treapSplit_counted first root counted
    by_cases high : last = []
    · simpa [low, high, Counted] using lower
    · simpa [low, high] using ⟨lower, (@treapSplit_counted last _ upper).2⟩

/-- An entry is at or above the lower bound; an empty bound is open. -/
def atLeast (first : List UInt8) (entry : Entry) : Bool :=
  decide (first = []) || !decide (entry.key < first)

/-- An entry is below the upper bound; an empty bound is open. -/
def isBelow (last : List UInt8) (entry : Entry) : Bool :=
  decide (last = []) || decide (entry.key < last)

def inRange (first last : List UInt8) (entry : Entry) : Bool :=
  atLeast first entry && isBelow last entry

/-- The entries of a list from `first` up to, not including, `last`. -/
def range (first last : List UInt8) (list : List Entry) : List Entry :=
  list.filter (inRange first last)

/-- Where the entries of the three parts of a range lie. -/
theorem rangeParts_bounds {root : Nodes} (ordered : Ordered root) (first last : List UInt8) :
    (∀ entry ∈ (Treap.rangeParts root first last).1.entries, atLeast first entry = false) ∧
      (∀ entry ∈ (Treap.rangeParts root first last).2.1.entries, inRange first last entry = true) ∧
      (∀ entry ∈ (Treap.rangeParts root first last).2.2.entries, isBelow last entry = false) := by
  unfold Treap.rangeParts inRange atLeast isBelow
  by_cases low : first = []
  · by_cases high : last = []
    · simp [low, high, Nodes.entries]
    · obtain ⟨front, back⟩ := @treapSplit_bounds last root ordered
      simpa [low, high, Nodes.entries] using ⟨front, back⟩
  · obtain ⟨front, back⟩ := @treapSplit_bounds first root ordered
    by_cases high : last = []
    · simpa [low, high, Nodes.entries] using ⟨front, back⟩
    · obtain ⟨inner, outer⟩ := @treapSplit_bounds last _ (@ordered_split first root ordered).2
      have inside := Treap.treapSplit_entries last (Treap.treapSplit first root).2
      have within : ∀ entry ∈ (Treap.treapSplit last (Treap.treapSplit first root).2).1.entries,
          first ≤ entry.key := by
        intro entry member
        apply back
        rw [← inside]
        exact List.mem_append_left _ member
      simpa [low, high] using ⟨front, fun entry member => ⟨within entry member, inner entry member⟩,
        outer⟩

theorem rangeParts_filter {root : Nodes} (ordered : Ordered root) (first last : List UInt8) :
    range first last root.entries = (Treap.rangeParts root first last).2.1.entries ∧
      root.entries.filter (fun entry => !inRange first last entry) =
        (Treap.rangeParts root first last).1.entries ++
          (Treap.rangeParts root first last).2.2.entries := by
  obtain ⟨front, inside, back⟩ := rangeParts_bounds ordered first last
  have left : ∀ entry ∈ (Treap.rangeParts root first last).1.entries,
      inRange first last entry = false := by
    intro entry member
    simp [inRange, front entry member]
  have right : ∀ entry ∈ (Treap.rangeParts root first last).2.2.entries,
      inRange first last entry = false := by
    intro entry member
    simp [inRange, back entry member]
  obtain ⟨taken, rest⟩ := filter_of_cut (@rfl _ ((Treap.rangeParts root first last).2.1.entries ++
    (Treap.rangeParts root first last).2.2.entries)) inside right
  have none := List.filter_eq_nil_iff.mpr (fun entry member => by simp [left entry member] :
    ∀ entry ∈ (Treap.rangeParts root first last).1.entries, ¬ inRange first last entry = true)
  have all := List.filter_eq_self.mpr (fun entry member => by simp [left entry member] :
    ∀ entry ∈ (Treap.rangeParts root first last).1.entries, (!inRange first last entry) = true)
  rw [← Treap.rangeParts_entries root first last]
  constructor
  · rw [range, List.filter_append, none, taken]
    rfl
  · rw [List.filter_append, all, rest]

theorem treapDeleteRange_spec {t : SizedTree} (valid : Valid t) (first last : List UInt8) :
    (treapDeleteRange t first last).2 = (range first last (entriesOf t)).length ∧
      entriesOf (treapDeleteRange t first last).1 =
        (entriesOf t).filter (fun entry => !inRange first last entry) := by
  obtain ⟨left, middle, right⟩ := rangeParts_plain t.root first last
  obtain ⟨taken, rest⟩ := rangeParts_filter valid.ordered first last
  unfold Sized.treapDeleteRange entriesOf
  dsimp only
  constructor
  · rw [pushFreeTree_eq, below_pushChild, nodeCount_eq, middle, taken]
    simp [below]
  · rw [treapMerge_plain, Treap.treapMerge_entries, left, right, rest]

theorem valid_deleteRange {t : SizedTree} (valid : Valid t) (first last : List UInt8) :
    Valid (treapDeleteRange t first last).1 := by
  obtain ⟨removed, kept⟩ := treapDeleteRange_spec valid first last
  constructor
  · unfold Ordered
    rw [← entriesOf, kept]
    exact List.Pairwise.filter _ valid.ordered
  · obtain ⟨lower, upper⟩ := rangeParts_counted valid.counted first last
    exact treapMerge_counted lower upper
  · rw [kept]
    change t.count - (treapDeleteRange t first last).2 = _
    rw [removed, valid.count, range]
    have parts := List.length_eq_length_filter_add (inRange first last) (l := entriesOf t)
    omega

/-! ## Loading -/

/-- The spine without its sizes. -/
def plainSpine (spine : SizedSpine) : Stream.Spine :=
  spine.map (fun (left, top) => (plain left, top))

/-- Every finished left side of a spine has its sizes. -/
def SpineCounted (spine : SizedSpine) : Prop := ∀ pair ∈ spine, Counted pair.1

theorem popLower_plain (entry : Entry) (spine : SizedSpine) (last : SizedNodes) :
    plainSpine (popLower entry spine last).1 =
        (Stream.popLower entry (plainSpine spine) (plain last)).1 ∧
      plain (popLower entry spine last).2 =
        (Stream.popLower entry (plainSpine spine) (plain last)).2 := by
  induction spine generalizing last with
  | nil => exact ⟨rfl, rfl⟩
  | cons pair spine ih =>
    obtain ⟨left, top⟩ := pair
    have shape : plainSpine ((left, top) :: spine) = (plain left, top) :: plainSpine spine := rfl
    rw [shape]
    unfold popLower Stream.popLower
    by_cases lower : treapPriorityCmp top entry = .lt
    · rw [if_pos lower, if_pos lower]
      exact ih (treapNodeFixSize left top last)
    · rw [if_neg lower, if_neg lower]
      exact ⟨rfl, rfl⟩

theorem popLower_counted {entry : Entry} {spine : SizedSpine} {last : SizedNodes}
    (counted : SpineCounted spine) (finished : Counted last) :
    SpineCounted (popLower entry spine last).1 ∧ Counted (popLower entry spine last).2 := by
  induction spine generalizing last with
  | nil => exact ⟨counted, finished⟩
  | cons pair spine ih =>
    obtain ⟨left, top⟩ := pair
    unfold popLower
    by_cases lower : treapPriorityCmp top entry = .lt
    · rw [if_pos lower]
      exact ih (fun pair inside => counted pair (List.mem_cons_of_mem _ inside))
        (counted_fixSize (counted (left, top) List.mem_cons_self) finished)
    · rw [if_neg lower]
      exact ⟨counted, finished⟩

theorem foldl_pushEntry_plain (loaded : List Entry) (spine : SizedSpine) :
    plainSpine (loaded.foldl pushEntry spine) =
      loaded.foldl Stream.pushEntry (plainSpine spine) := by
  induction loaded generalizing spine with
  | nil => rfl
  | cons entry loaded ih =>
    obtain ⟨rest, last⟩ := popLower_plain entry spine nil
    have step : plainSpine (pushEntry spine entry) = Stream.pushEntry (plainSpine spine) entry := by
      unfold pushEntry Stream.pushEntry
      change (plain _, entry) :: plainSpine _ = _
      rw [rest, last]
      rfl
    rw [List.foldl_cons, List.foldl_cons, ih, step]

theorem foldl_pushEntry_counted (loaded : List Entry) {spine : SizedSpine}
    (counted : SpineCounted spine) : SpineCounted (loaded.foldl pushEntry spine) := by
  induction loaded generalizing spine with
  | nil => exact counted
  | cons entry loaded ih =>
    obtain ⟨rest, last⟩ := @popLower_counted entry spine nil counted trivial
    apply ih
    intro pair inside
    rcases List.mem_cons.mp inside with rfl | further
    · exact last
    · exact rest pair further

theorem closeSpine_plain (spine : SizedSpine) (right : SizedNodes) :
    plain (closeSpine spine right) = Stream.closeSpine (plainSpine spine) (plain right) := by
  induction spine generalizing right with
  | nil => rfl
  | cons pair spine ih => exact ih (treapNodeFixSize pair.1 pair.2 right)

theorem closeSpine_counted {spine : SizedSpine} {right : SizedNodes}
    (counted : SpineCounted spine) (finished : Counted right) :
    Counted (closeSpine spine right) := by
  induction spine generalizing right with
  | nil => exact finished
  | cons pair spine ih =>
    exact ih (fun pair inside => counted pair (List.mem_cons_of_mem _ inside))
      (counted_fixSize (counted pair List.mem_cons_self) finished)

theorem foldl_pushEntry_entries (loaded : List Entry) (spine : Stream.Spine) :
    Stream.spineEntries (loaded.foldl Stream.pushEntry spine) =
      Stream.spineEntries spine ++ loaded := by
  induction loaded generalizing spine with
  | nil => simp
  | cons entry loaded ih =>
    rw [List.foldl_cons, ih, Stream.pushEntry_entries, List.append_assoc]
    rfl

theorem mapM_keys {seed : UInt64} {records : List (List UInt8 × List UInt8)} {loaded : List Entry}
    (made : records.mapM (fun (key, value) => treapNodeInit seed key value) = some loaded) :
    loaded.map Entry.key = records.map Prod.fst := by
  induction records generalizing loaded with
  | nil =>
    rw [List.mapM_nil] at made
    cases made
    rfl
  | cons record records ih =>
    rw [List.mapM_cons] at made
    simp only [Option.bind_eq_bind, Option.bind_eq_some_iff, Option.pure_def,
      Option.some.injEq] at made
    obtain ⟨entry, first, rest, others, rfl⟩ := made
    rw [List.map_cons, List.map_cons, ih others, treapNodeInit_key first]

/-- A load holds the entries it was given. -/
theorem closeSpine_loaded (loaded : List Entry) :
    (plain (closeSpine (loaded.foldl pushEntry []) nil)).entries = loaded := by
  rw [closeSpine_plain, Stream.closeSpine_entries, foldl_pushEntry_plain, foldl_pushEntry_entries]
  simp [plainSpine, Stream.spineEntries, plain, Nodes.entries]

theorem valid_load {t after : SizedTree} {records : List (List UInt8 × List UInt8)}
    (sorted : (records.map Prod.fst).Pairwise (· < ·))
    (done : treapLoad t records = some after) : Valid after := by
  unfold treapLoad at done
  obtain ⟨loaded, made, rfl⟩ := Option.map_eq_some_iff.mp done
  have shape := closeSpine_loaded loaded
  constructor
  · unfold Ordered Ascending
    rw [shape]
    rw [← mapM_keys made] at sorted
    exact List.pairwise_map.mp sorted
  · exact closeSpine_counted (foldl_pushEntry_counted loaded (by simp [SpineCounted])) trivial
  · dsimp only [entriesOf]
    rw [shape]

/-- Every treap a run leads to is ordered, with its sizes and its count right. -/
theorem Reachable.valid {t : SizedTree} (reached : Reachable t) : Valid t := by
  induction reached with
  | create seed => exact ⟨List.Pairwise.nil, trivial, rfl⟩
  | set key value _ done ih => exact valid_set ih done
  | delete key _ done ih => exact valid_delete ih done
  | deleteRange first last _ ih => exact valid_deleteRange ih first last
  | fork _ ih => exact ih
  | commit _ _ copied _ => exact ⟨copied.ordered, copied.counted, copied.count⟩
  | load records _ sorted done _ => exact valid_load sorted done

/-! ## Ranks and positions -/

theorem rankUnder_eq {key : List UInt8} {tree : SizedNodes} (ordered : Ordered (plain tree))
    (counted : Counted tree) (rank : Nat) :
    rankUnder key tree rank =
      rank + ((plain tree).entries.filter (fun entry => decide (entry.key < key))).length := by
  induction tree generalizing rank with
  | nil => rfl
  | node size left entry right ihl ihr =>
    obtain ⟨-, lower, upper⟩ := counted
    rw [plain_node] at ordered
    obtain ⟨before, behind, smaller, larger⟩ := ordered_node_iff.mp ordered
    rw [plain_node, Nodes.entries, List.filter_append, List.length_append]
    unfold rankUnder
    by_cases low : treapKeyCmp entry.key key = .lt
    · have under : entry.key < key := (treapKeyCmp_lt_iff _ _).mp low
      have all : (plain left).entries.filter (fun entry => decide (entry.key < key)) =
          (plain left).entries :=
        List.filter_eq_self.mpr (fun found inside =>
          decide_eq_true (List.lt_trans (smaller found inside) under))
      rw [if_pos low, ihr behind upper, all, List.filter_cons_of_pos (by simpa using under),
        List.length_cons, storedSize_eq lower]
      omega
    · have reached : key ≤ entry.key := (treapKeyCmp_not_lt_iff _ _).mp low
      have none : (entry :: (plain right).entries).filter (fun entry => decide (entry.key < key)) =
          [] := by
        apply List.filter_eq_nil_iff.mpr
        intro found inside
        rw [decide_eq_true_eq]
        rcases List.mem_cons.mp inside with rfl | further
        · exact List.not_lt.mpr reached
        · exact List.not_lt.mpr (List.le_of_lt (List.lt_of_le_of_lt reached (larger found further)))
      rw [if_neg low, ihl before lower, none]
      rfl

theorem treapRank_eq {t : SizedTree} (valid : Valid t) (key : List UInt8) :
    treapRank t key = ((entriesOf t).filter (fun entry => decide (entry.key < key))).length := by
  unfold treapRank
  split
  · rename_i empty
    simp [empty]
  · rw [rankUnder_eq valid.ordered valid.counted, entriesOf]
    omega

theorem selectUnder_eq {tree : SizedNodes} (counted : Counted tree) (index : Nat) :
    selectUnder tree index = (plain tree).entries[index]? := by
  induction tree generalizing index with
  | nil => rfl
  | node size left entry right ihl ihr =>
    obtain ⟨-, lower, upper⟩ := counted
    have stored := storedSize_eq lower
    rw [plain_node, Nodes.entries]
    unfold selectUnder
    by_cases inside : index < storedSize left
    · rw [if_pos inside, ihl lower, List.getElem?_append_left (by omega)]
    · rw [if_neg inside, List.getElem?_append_right (by omega)]
      by_cases here : index = storedSize left
      · rw [if_pos here, here, stored]
        simp
      · obtain ⟨rest, gap⟩ : ∃ rest, index = (plain left).entries.length + (rest + 1) :=
          ⟨index - (plain left).entries.length - 1, by omega⟩
        rw [if_neg here, ihr upper, stored]
        have first : index - ((plain left).entries.length + 1) = rest := by omega
        have second : index - (plain left).entries.length = rest + 1 := by omega
        rw [first, second, List.getElem?_cons_succ]

/-! ## Bounds on sorted lists -/

/-- A property that holds of everything in front of an entry that has it is decided
by the first entry that fails it. -/
theorem filter_eq_takeWhile {R : Entry → Entry → Prop} {p : Entry → Bool} {list : List Entry}
    (related : list.Pairwise R) (closed : ∀ first second, R first second → p second = true →
      p first = true) : list.filter p = list.takeWhile p := by
  induction list with
  | nil => rfl
  | cons entry rest ih =>
    obtain ⟨ahead, further⟩ := List.pairwise_cons.mp related
    cases holds : p entry with
    | true => rw [List.filter_cons_of_pos holds, List.takeWhile_cons_of_pos holds, ih further]
    | false =>
      rw [List.filter_cons_of_neg (by simp [holds]), List.takeWhile_cons_of_neg (by simp [holds])]
      apply List.filter_eq_nil_iff.mpr
      intro found inside reached
      rw [closed entry found (ahead found inside) reached] at holds
      cases holds

theorem isBelow_closed {last : List UInt8} {first second : Entry} (less : first.key < second.key)
    (holds : isBelow last second = true) : isBelow last first = true := by
  unfold isBelow at *
  simp only [Bool.or_eq_true, decide_eq_true_eq] at *
  exact holds.imp id (fun under => List.lt_trans less under)

theorem atLeast_closed {bound : List UInt8} {first second : Entry} (less : first.key < second.key)
    (holds : atLeast bound first = true) : atLeast bound second = true := by
  unfold atLeast at *
  simp only [Bool.or_eq_true, decide_eq_true_eq, Bool.not_eq_true', decide_eq_false_iff_not] at *
  exact holds.imp id (fun reached under => reached (List.lt_trans less under))

/-- A range, cut from the left and then from the right. -/
theorem range_eq_takeWhile {list : List Entry} (ascending : Ascending list)
    (first last : List UInt8) :
    range first last list = (list.filter (atLeast first)).takeWhile (isBelow last) := by
  rw [← filter_eq_takeWhile (List.Pairwise.filter _ ascending) (fun _ _ => isBelow_closed),
    List.filter_filter, range]
  congr 1
  funext entry
  rw [inRange, Bool.and_comm]

/-- A range in descending order, cut from the right and then from the left. -/
theorem range_reverse_eq_takeWhile {list : List Entry} (ascending : Ascending list)
    (first last : List UInt8) :
    (range first last list).reverse =
      ((list.filter (isBelow last)).reverse).takeWhile (atLeast first) := by
  have descending : (list.filter (isBelow last)).reverse.Pairwise
      (fun first second => second.key < first.key) :=
    List.pairwise_reverse.mpr (List.Pairwise.filter _ ascending)
  rw [← filter_eq_takeWhile descending (fun _ _ => atLeast_closed), List.filter_reverse,
    List.filter_filter]
  rfl

/-- At a node that reaches the lower bound everything to the right does; left of one
that does not nothing does. -/
theorem filter_atLeast_node {left right : Nodes} {entry : Entry} {first : List UInt8}
    (ordered : Ordered (.node left entry right)) :
    (Nodes.node left entry right).entries.filter (atLeast first) =
      if first = [] ∨ treapKeyCmp entry.key first ≠ .lt then
        left.entries.filter (atLeast first) ++ entry :: right.entries
      else right.entries.filter (atLeast first) := by
  obtain ⟨-, -, smaller, larger⟩ := ordered_node_iff.mp ordered
  rw [Nodes.entries, List.filter_append]
  split
  · rename_i reached
    have here : atLeast first entry = true := by
      unfold atLeast
      simpa [treapKeyCmp_lt_iff] using reached
    have all : right.entries.filter (atLeast first) = right.entries :=
      List.filter_eq_self.mpr (fun found inside => atLeast_closed (larger found inside) here)
    rw [List.filter_cons_of_pos here, all]
  · rename_i short
    have missed : ¬ atLeast first entry = true := by
      unfold atLeast
      simpa [treapKeyCmp_lt_iff] using short
    rw [List.filter_cons_of_neg missed, List.filter_eq_nil_iff.mpr, List.nil_append]
    intro found inside reached
    exact missed (atLeast_closed (smaller found inside) reached)

theorem filter_isBelow_node {left right : Nodes} {entry : Entry} {last : List UInt8}
    (ordered : Ordered (.node left entry right)) :
    (Nodes.node left entry right).entries.filter (isBelow last) =
      if last = [] ∨ treapKeyCmp entry.key last = .lt then
        left.entries ++ entry :: right.entries.filter (isBelow last)
      else left.entries.filter (isBelow last) := by
  obtain ⟨-, -, smaller, larger⟩ := ordered_node_iff.mp ordered
  rw [Nodes.entries, List.filter_append]
  split
  · rename_i reached
    have here : isBelow last entry = true := by
      unfold isBelow
      simpa [treapKeyCmp_lt_iff] using reached
    rw [List.filter_cons_of_pos here, List.filter_eq_self.mpr]
    intro found inside
    exact isBelow_closed (smaller found inside) here
  · rename_i beyond
    have missed : ¬ isBelow last entry = true := by
      unfold isBelow
      simpa [treapKeyCmp_lt_iff] using beyond
    rw [List.filter_cons_of_neg missed, List.filter_eq_nil_iff (l := right.entries) |>.mpr,
      List.append_nil]
    intro found inside reached
    exact missed (isBelow_closed (larger found inside) reached)

/-! ## Ends of a range -/

theorem firstFrom_eq {first : List UInt8} {tree : SizedNodes} (ordered : Ordered (plain tree))
    (best : Option Entry) :
    firstFrom first tree best = ((plain tree).entries.filter (atLeast first)).head?.or best := by
  induction tree generalizing best with
  | nil => rfl
  | node size left entry right ihl ihr =>
    rw [plain_node] at ordered
    obtain ⟨before, behind, -, -⟩ := ordered_node_iff.mp ordered
    rw [plain_node, filter_atLeast_node ordered]
    unfold firstFrom
    by_cases short : first ≠ [] ∧ treapKeyCmp entry.key first = .lt
    · rw [if_pos short, if_neg (by tauto), ihr behind]
    · rw [if_neg short, if_pos (by tauto), ihl before]
      cases (plain left).entries.filter (atLeast first) <;> rfl

theorem lastBefore_eq {last : List UInt8} {tree : SizedNodes} (ordered : Ordered (plain tree))
    (best : Option Entry) :
    lastBefore last tree best =
      ((plain tree).entries.filter (isBelow last)).reverse.head?.or best := by
  induction tree generalizing best with
  | nil => rfl
  | node size left entry right ihl ihr =>
    rw [plain_node] at ordered
    obtain ⟨before, behind, -, -⟩ := ordered_node_iff.mp ordered
    rw [plain_node, filter_isBelow_node ordered]
    unfold lastBefore
    by_cases beyond : last ≠ [] ∧ treapKeyCmp entry.key last ≠ .lt
    · rw [if_pos beyond, if_neg (by tauto), ihl before]
    · rw [if_neg beyond, if_pos (by tauto), ihr behind]
      rw [List.reverse_append, List.reverse_cons]
      cases ((plain right).entries.filter (isBelow last)).reverse <;> rfl

theorem treapMinRange_eq {t : SizedTree} (valid : Valid t) (first last : List UInt8) :
    treapMinRange t first last = (range first last (entriesOf t)).head? := by
  unfold treapMinRange
  rw [firstFrom_eq valid.ordered, Option.or_none, range_eq_takeWhile valid.ascending,
    List.head?_takeWhile, ← entriesOf]
  cases ((entriesOf t).filter (atLeast first)).head? with
  | none => rfl
  | some best =>
    dsimp only
    rw [Option.filter_some]
    unfold isBelow
    by_cases beyond : last ≠ [] ∧ treapKeyCmp best.key last ≠ .lt
    · rw [if_pos beyond, if_neg]
      simpa [treapKeyCmp_lt_iff] using beyond
    · rw [if_neg beyond, if_pos]
      simp only [ne_eq, treapKeyCmp_lt_iff] at beyond
      simp only [Bool.or_eq_true, decide_eq_true_eq]
      tauto

theorem treapMaxRange_eq {t : SizedTree} (valid : Valid t) (first last : List UInt8) :
    treapMaxRange t first last = (range first last (entriesOf t)).getLast? := by
  unfold treapMaxRange
  rw [lastBefore_eq valid.ordered, Option.or_none, ← List.head?_reverse,
    range_reverse_eq_takeWhile valid.ascending, List.head?_takeWhile, ← entriesOf]
  cases ((entriesOf t).filter (isBelow last)).reverse.head? with
  | none => rfl
  | some best =>
    dsimp only
    rw [Option.filter_some]
    unfold atLeast
    by_cases short : first ≠ [] ∧ treapKeyCmp best.key first = .lt
    · rw [if_pos short, if_neg]
      simpa [treapKeyCmp_lt_iff] using short
    · rw [if_neg short, if_pos]
      simp only [ne_eq, treapKeyCmp_lt_iff] at short
      simp only [Bool.or_eq_true, decide_eq_true_eq, Bool.not_eq_true', decide_eq_false_iff_not]
      tauto

/-- Counting by two ranks is counting the range, also for bounds in the wrong order. -/
theorem treapCountRange_eq {t : SizedTree} (valid : Valid t) (first last : List UInt8) :
    treapCountRange t first last = (range first last (entriesOf t)).length := by
  have low : (if first = [] then 0 else treapRank t first) =
      ((entriesOf t).filter (fun entry => !atLeast first entry)).length := by
    split
    · rename_i empty
      simp [atLeast, empty]
    · rename_i bounded
      simp [treapRank_eq valid, atLeast, bounded]
  have high : (if last = [] then t.count else treapRank t last) =
      ((entriesOf t).filter (isBelow last)).length := by
    split
    · rename_i empty
      have all : isBelow last = fun _ => true := by
        funext entry
        simp [isBelow, empty]
      simp [all, valid.count]
    · rename_i bounded
      have same : isBelow last = fun entry => decide (entry.key < last) := by
        funext entry
        simp [isBelow, bounded]
      rw [treapRank_eq valid, same]
  have split := List.length_eq_length_filter_add (atLeast first) (l := (entriesOf t).filter (isBelow last))
  have inside : ((entriesOf t).filter (isBelow last)).filter (atLeast first) =
      range first last (entriesOf t) := List.filter_filter ..
  unfold treapCountRange
  dsimp only
  rw [low, high]
  rw [inside] at split
  by_cases inverted : ∃ entry, atLeast first entry = false ∧ isBelow last entry = false
  · -- an entry between the two bounds would lie above the upper one and below the lower one
    obtain ⟨between, under, past⟩ := inverted
    have empty : range first last (entriesOf t) = [] := by
      apply List.filter_eq_nil_iff.mpr
      intro found _ reached
      simp only [inRange, atLeast, isBelow, Bool.and_eq_true, Bool.or_eq_true, decide_eq_true_eq,
        Bool.not_eq_true', decide_eq_false_iff_not, Bool.or_eq_false_iff, Bool.not_eq_false']
        at reached under past
      have above := reached.1.resolve_left under.1
      have short := reached.2.resolve_left past.1
      exact above (List.lt_trans short (List.lt_of_le_of_lt (List.not_lt.mp past.2) under.2))
    have subset : (((entriesOf t).filter (isBelow last)).filter (fun entry => !atLeast first entry)).length ≤
        ((entriesOf t).filter (fun entry => !atLeast first entry)).length := by
      rw [List.filter_filter]
      apply List.Sublist.length_le
      apply List.monotone_filter_right
      intro entry both
      exact (Bool.and_eq_true _ _ ▸ both).1
    rw [empty] at split ⊢
    simp only [List.length_nil] at split ⊢
    split_ifs
    · omega
    · rfl
  · -- everything below the lower bound is below the upper one
    push Not at inverted
    have same : ((entriesOf t).filter (isBelow last)).filter (fun entry => !atLeast first entry) =
        (entriesOf t).filter (fun entry => !atLeast first entry) := by
      rw [List.filter_filter]
      congr 1
      funext entry
      have bounded := inverted entry
      cases reached : atLeast first entry with
      | true => rfl
      | false => simpa using bounded reached
    rw [same] at split
    rw [if_pos (by omega)]
    omega

/-! ## Scans -/

section Scan

variable {σ : Type} (fn : σ → Entry → σ × Bool)

/-- Visits the entries of a list in order, until the visitor asks to stop. -/
def visitAll : List Entry → σ → σ × Nat
  | [], state => (state, 0)
  | entry :: rest, state =>
    let (state, stop) := fn state entry
    if stop then (state, 1)
    else
      let (state, count) := visitAll rest state
      (state, count + 1)

/-- What an ascending walk with this stack has yet to visit. -/
def upcoming (stack : List Frame) : List Entry :=
  stack.flatMap (fun (_, entry, right) => entry :: (plain right).entries)

/-- What a descending walk with this stack has yet to visit. -/
def upcomingDown (stack : List Frame) : List Entry :=
  stack.flatMap (fun (left, entry, _) => entry :: (plain left).entries.reverse)

theorem upcoming_descendLeft (tree : SizedNodes) (stack : List Frame) :
    upcoming (descendLeft tree stack) = (plain tree).entries ++ upcoming stack := by
  induction tree generalizing stack with
  | nil => rfl
  | node size left entry right ihl _ =>
    rw [descendLeft, ihl, plain_node, Nodes.entries]
    simp [upcoming]

theorem upcomingDown_descendRight (tree : SizedNodes) (stack : List Frame) :
    upcomingDown (descendRight tree stack) = (plain tree).entries.reverse ++ upcomingDown stack := by
  induction tree generalizing stack with
  | nil => rfl
  | node size left entry right _ ihr =>
    rw [descendRight, ihr, plain_node, Nodes.entries]
    simp [upcomingDown]

theorem upcoming_seekFirst {first : List UInt8} {tree : SizedNodes} (ordered : Ordered (plain tree))
    (stack : List Frame) :
    upcoming (seekFirst first tree stack) =
      (plain tree).entries.filter (atLeast first) ++ upcoming stack := by
  induction tree generalizing stack with
  | nil => rfl
  | node size left entry right ihl ihr =>
    rw [plain_node] at ordered
    obtain ⟨before, behind, -, -⟩ := ordered_node_iff.mp ordered
    rw [plain_node, filter_atLeast_node ordered]
    unfold seekFirst
    split
    · rw [ihl before]
      simp [upcoming]
    · exact ihr behind stack

theorem upcomingDown_seekLast {last : List UInt8} {tree : SizedNodes}
    (ordered : Ordered (plain tree)) (stack : List Frame) :
    upcomingDown (seekLast last tree stack) =
      ((plain tree).entries.filter (isBelow last)).reverse ++ upcomingDown stack := by
  induction tree generalizing stack with
  | nil => rfl
  | node size left entry right ihl ihr =>
    rw [plain_node] at ordered
    obtain ⟨before, behind, -, -⟩ := ordered_node_iff.mp ordered
    rw [plain_node, filter_isBelow_node ordered]
    unfold seekLast
    split
    · rw [ihr behind]
      simp [upcomingDown]
    · exact ihl before stack

theorem scanUp_eq (last : List UInt8) (stack : List Frame) (state : σ) (count : Nat) :
    scanUp fn last stack state count =
      ((visitAll fn ((upcoming stack).takeWhile (isBelow last)) state).1,
        count + (visitAll fn ((upcoming stack).takeWhile (isBelow last)) state).2) := by
  fun_induction scanUp fn last stack state count with
  | case1 state count => rfl
  | case2 left entry right stack state count beyond =>
    have missed : ¬ isBelow last entry = true := by
      unfold isBelow
      simpa [treapKeyCmp_lt_iff] using beyond
    simp [upcoming, List.takeWhile_cons_of_neg missed, visitAll]
  | case3 left entry right stack state count within state' visited =>
    have here : isBelow last entry = true := by
      unfold isBelow
      simp only [ne_eq, treapKeyCmp_lt_iff] at within
      simp only [Bool.or_eq_true, decide_eq_true_eq]
      tauto
    simp [upcoming, List.takeWhile_cons_of_pos here, visitAll, visited]
  | case4 left entry right stack state count within state' stop visited goes ih =>
    have here : isBelow last entry = true := by
      unfold isBelow
      simp only [ne_eq, treapKeyCmp_lt_iff] at within
      simp only [Bool.or_eq_true, decide_eq_true_eq]
      tauto
    rw [ih, upcoming_descendLeft]
    have shape : upcoming ((left, entry, right) :: stack) =
        entry :: ((plain right).entries ++ upcoming stack) := rfl
    rw [shape, List.takeWhile_cons_of_pos here]
    simp only [visitAll, visited, goes, Bool.false_eq_true, if_false]
    exact Prod.ext rfl (by omega)

theorem scanDown_eq (first : List UInt8) (stack : List Frame) (state : σ) (count : Nat) :
    scanDown fn first stack state count =
      ((visitAll fn ((upcomingDown stack).takeWhile (atLeast first)) state).1,
        count + (visitAll fn ((upcomingDown stack).takeWhile (atLeast first)) state).2) := by
  fun_induction scanDown fn first stack state count with
  | case1 state count => rfl
  | case2 left entry right stack state count short =>
    have missed : ¬ atLeast first entry = true := by
      unfold atLeast
      simpa [treapKeyCmp_lt_iff] using short
    simp [upcomingDown, List.takeWhile_cons_of_neg missed, visitAll]
  | case3 left entry right stack state count within state' visited =>
    have here : atLeast first entry = true := by
      unfold atLeast
      simp only [ne_eq, treapKeyCmp_lt_iff] at within
      simp only [Bool.or_eq_true, decide_eq_true_eq, Bool.not_eq_true', decide_eq_false_iff_not]
      tauto
    simp [upcomingDown, List.takeWhile_cons_of_pos here, visitAll, visited]
  | case4 left entry right stack state count within state' stop visited goes ih =>
    have here : atLeast first entry = true := by
      unfold atLeast
      simp only [ne_eq, treapKeyCmp_lt_iff] at within
      simp only [Bool.or_eq_true, decide_eq_true_eq, Bool.not_eq_true', decide_eq_false_iff_not]
      tauto
    rw [ih, upcomingDown_descendRight]
    have shape : upcomingDown ((left, entry, right) :: stack) =
        entry :: ((plain left).entries.reverse ++ upcomingDown stack) := rfl
    rw [shape, List.takeWhile_cons_of_pos here]
    simp only [visitAll, visited, goes, Bool.false_eq_true, if_false]
    exact Prod.ext rfl (by omega)

theorem treapScan_asc {t : SizedTree} (valid : Valid t) (first last : List UInt8) (state : σ) :
    treapScan fn t first last .asc state = visitAll fn (range first last (entriesOf t)) state := by
  unfold treapScan
  dsimp only
  rw [scanUp_eq, upcoming_seekFirst valid.ordered, range_eq_takeWhile valid.ascending, ← entriesOf]
  simp [upcoming]

theorem treapScan_desc {t : SizedTree} (valid : Valid t) (first last : List UInt8) (state : σ) :
    treapScan fn t first last .desc state =
      visitAll fn (range first last (entriesOf t)).reverse state := by
  unfold treapScan
  dsimp only
  rw [scanDown_eq, upcomingDown_seekLast valid.ordered, range_reverse_eq_takeWhile valid.ascending,
    ← entriesOf]
  simp [upcomingDown]

end Scan

/-- The operations of a treap answer as the sorted list of its entries does. -/
structure Agrees (t : SizedTree) (list : List Entry) : Prop where
  ascending : Ascending list
  rank : ∀ key, treapRank t key = (list.filter (fun entry => decide (entry.key < key))).length
  select : ∀ index, treapSelect t index = list[index]?
  countRange : ∀ first last, treapCountRange t first last = (range first last list).length
  scanAsc : ∀ {σ : Type} (fn : σ → Entry → σ × Bool) first last state,
    treapScan fn t first last .asc state = visitAll fn (range first last list) state
  scanDesc : ∀ {σ : Type} (fn : σ → Entry → σ × Bool) first last state,
    treapScan fn t first last .desc state = visitAll fn (range first last list).reverse state
  minRange : ∀ first last, treapMinRange t first last = (range first last list).head?
  maxRange : ∀ first last, treapMaxRange t first last = (range first last list).getLast?
  deleteRange : ∀ first last,
    (treapDeleteRange t first last).2 = (range first last list).length ∧
      entriesOf (treapDeleteRange t first last).1 =
        list.filter (fun entry => !inRange first last entry)

/-- Every treap that a run of operations leads to agrees with its entries. -/
theorem reachable_agrees {t : SizedTree} (reached : Reachable t) : Agrees t (entriesOf t) where
  ascending := reached.valid.ascending
  rank := treapRank_eq reached.valid
  select := selectUnder_eq reached.valid.counted
  countRange := treapCountRange_eq reached.valid
  scanAsc fn first last state := treapScan_asc fn reached.valid first last state
  scanDesc fn first last state := treapScan_desc fn reached.valid first last state
  minRange := treapMinRange_eq reached.valid
  maxRange := treapMaxRange_eq reached.valid
  deleteRange := treapDeleteRange_spec reached.valid

/-- Two keys, set in descending order, and a range that holds the second one. -/
theorem two_keys_agree : ∃ t, Reachable t ∧ (entriesOf t).map Entry.key = [[1], [2]] ∧
    treapCountRange t [2] [] = (range [2] [] (entriesOf t)).length := by
  have built : (treapSet (treapCreate 7) [2] [5]).isSome = true := by decide +kernel
  obtain ⟨one, first⟩ := Option.isSome_iff_exists.mp built
  have again : ((treapSet (treapCreate 7) [2] [5]).bind (fun one => treapSet one [1] [6])).any
      (fun t => decide ((entriesOf t).map Entry.key = [[1], [2]])) = true := by decide +kernel
  rw [first, Option.bind_some] at again
  obtain ⟨t, second, keys⟩ := (Option.any_eq_true _ _).mp again
  have reached : Reachable t := .set [1] [6] (.set [2] [5] (.create 7) first) second
  exact ⟨t, reached, of_decide_eq_true keys, (reachable_agrees reached).countRange [2] []⟩

end Kynovo.Store.RangeProofs
