import Kynovo.Store.Sized

/-! The loops of an update. A descent clones every node it passes and hangs the clone into the
pointer the clone before it left open; the clones are chained with the newest one first. Sizes
are put right afterwards by one walk along that chain. The loops build what the recursions of
`Sized` build, since the newest clone is the deepest one. -/
namespace Kynovo.Store.Clones
open Kynovo.Store.Treap (Entry treapKeyCmp treapPriorityCmp)
open Kynovo.Store.Sized
open Kynovo.Store.Sized.SizedNodes

/-- A clone with the pointer that the next clone is hung into: its right one or its left one. -/
inductive Clone where
  | low (left : SizedNodes) (entry : Entry)
  | high (entry : Entry) (right : SizedNodes)
deriving DecidableEq, Repr

/-- A clone whose open pointer has been filled gets its size. -/
def Clone.fixSize : Clone → SizedNodes → SizedNodes
  | .low left entry, filled => treapNodeFixSize left entry filled
  | .high entry right, filled => treapNodeFixSize filled entry right

/-! ## Split -/

/-- The descent of a split, with the chain of its clones. -/
def splitClones (key : List UInt8) : SizedNodes → List Clone → List Clone
  | nil, chain => chain
  | node _ left entry right, chain =>
    if treapKeyCmp key entry.key ≠ .gt then splitClones key left (.high entry right :: chain)
    else splitClones key right (.low left entry :: chain)

/-- A clone of a split hangs in the tree of its own side. -/
def hangSplit (parts : SizedNodes × SizedNodes) : Clone → SizedNodes × SizedNodes
  | .low left entry => (treapNodeFixSize left entry parts.1, parts.2)
  | .high entry right => (parts.1, treapNodeFixSize parts.2 entry right)

theorem splitClones_fixed (key : List UInt8) (tree : SizedNodes) (chain : List Clone) :
    (splitClones key tree chain).foldl hangSplit (nil, nil) =
      chain.foldl hangSplit (treapSplit key tree) := by
  induction tree generalizing chain with
  | nil => rfl
  | node size left entry right ihl ihr =>
    unfold splitClones treapSplit
    by_cases low : treapKeyCmp key entry.key ≠ .gt
    · rw [if_pos low, if_pos low, ihl]
      rfl
    · rw [if_neg low, if_neg low, ihr]
      rfl

/-- The loop of a split gives the two trees of the recursion. -/
theorem treapSplit_loop (key : List UInt8) (tree : SizedNodes) :
    (splitClones key tree []).foldl hangSplit (nil, nil) = treapSplit key tree :=
  splitClones_fixed key tree []

/-! ## Merge -/

/-- The descent of a merge: it clones the higher root until one tree is used up, and ends with
what is hung in as it is. -/
def mergeClones : SizedNodes → SizedNodes → List Clone → List Clone × SizedNodes
  | nil, right, chain => (chain, right)
  | node size ll le lr, nil, chain => (chain, node size ll le lr)
  | node size ll le lr, node other rl re rr, chain =>
    if treapPriorityCmp le re = .gt then
      mergeClones lr (node other rl re rr) (.low ll le :: chain)
    else mergeClones (node size ll le lr) rl (.high re rr :: chain)
termination_by left right => nodeCount left + nodeCount right
decreasing_by
  all_goals simp only [nodeCount]; omega

/-- The walk along the chain of a descent that goes down one path. -/
def hang (filled : SizedNodes) (clone : Clone) : SizedNodes := clone.fixSize filled

theorem mergeClones_fixed (left right : SizedNodes) (chain : List Clone) :
    (mergeClones left right chain).1.foldl hang (mergeClones left right chain).2 =
      chain.foldl hang (treapMerge left right) := by
  fun_induction mergeClones left right chain with
  | case1 right chain => rfl
  | case2 size ll le lr chain => rfl
  | case3 size ll le lr other rl re rr chain higher ih =>
    rw [ih]
    simp only [treapMerge, mergeUnder, higher, if_true, List.foldl_cons, hang, Clone.fixSize]
  | case4 size ll le lr other rl re rr chain lower ih =>
    rw [ih]
    simp only [treapMerge, mergeUnder, lower, if_false, List.foldl_cons, hang, Clone.fixSize]

theorem treapMerge_loop (left right : SizedNodes) :
    (mergeClones left right []).1.foldl hang (mergeClones left right []).2 = treapMerge left right :=
  mergeClones_fixed left right []

/-! ## Removing the smallest entry -/

/-- The descent to the smallest entry; its right side is hung in for it. -/
def removeMinClones : SizedNodes → List Clone → List Clone × SizedNodes
  | nil, chain => (chain, nil)
  | node _ nil _ right, chain => (chain, right)
  | node _ (node size ll le lr) entry right, chain =>
    removeMinClones (node size ll le lr) (.high entry right :: chain)

theorem removeMinClones_fixed (tree : SizedNodes) (chain : List Clone) :
    (removeMinClones tree chain).1.foldl hang (removeMinClones tree chain).2 =
      chain.foldl hang (treapRemoveMin tree) := by
  fun_induction removeMinClones tree chain with
  | case1 chain => rfl
  | case2 chain size entry right => rfl
  | case3 chain size' size ll le lr entry right ih =>
    rw [ih]
    rfl

theorem treapRemoveMin_loop (tree : SizedNodes) :
    (removeMinClones tree []).1.foldl hang (removeMinClones tree []).2 = treapRemoveMin tree :=
  removeMinClones_fixed tree []

end Kynovo.Store.Clones
