import Mathlib.Data.BitVec
import Mathlib.Data.Vector.Basic
import Mathlib.Data.List.Perm.Subperm
import Mathlib.Data.List.Nodup
import Mathlib.Tactic.Common

/-! The register linearizability checker of the cluster fuzz: the plain backtracking search,
the search that remembers failed configurations in an open-addressing table, and the orders
that both look for. -/
namespace Kynovo.Harness.Lincheck

/-- `lin_op`. A delete writes the value that stands for "absent". -/
structure LinOp where
  isWrite : Bool
  val : Int32
  inv : Int
  resp : Int
  deriving DecidableEq

/-- The width of the operation mask. -/
def linMax : Nat := 64

def linInconclusive : Int := -1

/-- The bit of an operation in a mask. -/
def bit (i : Nat) : BitVec 64 := 1#64 <<< i

section Search

variable (ops : Nat → LinOp) (n : Nat)

/-- The mask of the operations that responded before another was invoked. -/
def pred (i : Nat) : BitVec 64 :=
  (List.range n).foldl
    (fun mask j => if j ≠ i ∧ (ops j).resp < (ops i).inv then mask ||| bit j else mask) 0

/-- An operation may come next: it is unplaced, its real-time predecessors are placed, and a
read returns the current value. -/
def canPlace (pred : Nat → BitVec 64) (used : BitVec 64) (curVal : Int32) (i : Nat) : Bool :=
  used &&& bit i = 0 ∧ pred i &&& ~~~used = 0 ∧
    ((ops i).isWrite = true ∨ curVal = (ops i).val)

/-- The register after an operation. -/
def valAfter (curVal : Int32) (i : Nat) : Int32 :=
  if (ops i).isWrite then (ops i).val else curVal

/-- `lin_search`, with `n - count` in the place of `count`: the loop over the operations
stops at the first that leads to a full order. The mask it restores after a failed try is the
one it started from. -/
def linSearch (pred : Nat → BitVec 64) : Nat → BitVec 64 → Int32 → Bool
  | 0, _, _ => true
  | left + 1, used, curVal => (List.range n).any fun i =>
      canPlace ops pred used curVal i &&
        linSearch pred left (used ||| bit i) (valAfter ops curVal i)

end Search

/-- `lin_oracle`. -/
def linOracle (ops : Nat → LinOp) (n : Int) (init : Int32) : Int :=
  if n < 0 ∨ n > linMax then linInconclusive
  else if linSearch ops n.toNat (pred ops n.toNat) n.toNat 0 init then 1 else 0

/-- `LIN_MEMO_SIZE`. -/
def linMemoSize : Nat := 2 ^ 16

/-- `lin_memo_slot`. -/
structure LinMemoSlot where
  used : BitVec 64
  cur : Int32
  valid : Bool
  deriving DecidableEq

/-- `lin_memo`. -/
abbrev LinMemo := Vector LinMemoSlot linMemoSize

/-- The table after `memset`. -/
def emptyMemo : LinMemo := Vector.replicate linMemoSize ⟨0, 0, false⟩

/-- `lin_memo_hash`. The last shift leaves sixteen bits. -/
def linMemoHash (used : BitVec 64) (cur : Int32) : Fin linMemoSize :=
  let k := used * 0x9E3779B97F4A7C15#64
  let k := k ^^^ cur.toUInt32.toBitVec.setWidth 64 * 0xC2B2AE3D27D4EB4F#64
  let k := k ^^^ k >>> 29
  let k := k * 0xBF58476D1CE4E5B9#64
  let k := k ^^^ k >>> 32
  ⟨(k >>> (64 - 16)).toNat, by
    rw [BitVec.toNat_ushiftRight, Nat.shiftRight_eq_div_pow]
    have bound := k.isLt
    unfold linMemoSize
    omega⟩

/-- The slot after another, `(i+1u)&(LIN_MEMO_SIZE-1u)`. -/
def nextSlot (i : Fin linMemoSize) : Fin linMemoSize :=
  ⟨(i.val + 1) % linMemoSize, Nat.mod_lt _ (by decide)⟩

/-- The probes of `lin_memo_get` that are left, from a slot on. -/
def getFrom (memo : LinMemo) (used : BitVec 64) (cur : Int32) : Nat → Fin linMemoSize → Bool
  | 0, _ => false
  | probes + 1, i =>
    let slot := memo[i.val]
    if !slot.valid then false
    else if slot.used = used ∧ slot.cur = cur then true
    else getFrom memo used cur probes (nextSlot i)

/-- `lin_memo_get`. -/
def linMemoGet (memo : LinMemo) (used : BitVec 64) (cur : Int32) : Bool :=
  getFrom memo used cur linMemoSize (linMemoHash used cur)

/-- The probes of `lin_memo_put` that are left, from a slot on; with none left the table is
dropped and the home slot taken. -/
def putFrom (memo : LinMemo) (used : BitVec 64) (cur : Int32) : Nat → Fin linMemoSize → LinMemo
  | 0, _ => emptyMemo.set (linMemoHash used cur) ⟨used, cur, true⟩
  | probes + 1, i =>
    let slot := memo[i.val]
    if !slot.valid ∨ (slot.used = used ∧ slot.cur = cur) then memo.set i ⟨used, cur, true⟩
    else putFrom memo used cur probes (nextSlot i)

/-- `lin_memo_put`. -/
def linMemoPut (memo : LinMemo) (used : BitVec 64) (cur : Int32) : LinMemo :=
  putFrom memo used cur linMemoSize (linMemoHash used cur)

/-- A loop that tries the candidates in turn and passes the table on. -/
def tryEach (attempt : Nat → LinMemo → Bool × LinMemo) : List Nat → LinMemo → Bool × LinMemo
  | [], memo => (false, memo)
  | i :: rest, memo =>
    match attempt i memo with
    | (true, memo) => (true, memo)
    | (false, memo) => tryEach attempt rest memo

/-- `lin_search_memo`, counting down like `linSearch`. -/
def linSearchMemo (ops : Nat → LinOp) (n : Nat) (pred : Nat → BitVec 64) :
    Nat → BitVec 64 → Int32 → LinMemo → Bool × LinMemo
  | 0, _, _, memo => (true, memo)
  | left + 1, used, curVal, memo =>
    -- already proven to fail
    if linMemoGet memo used curVal then (false, memo)
    else
      let attempt := fun i memo =>
        if canPlace ops pred used curVal i then
          linSearchMemo ops n pred left (used ||| bit i) (valAfter ops curVal i) memo
        else (false, memo)
      match tryEach attempt (List.range n) memo with
      | (true, memo) => (true, memo)
      | (false, memo) => (false, linMemoPut memo used curVal)

/-- `lin_linearizable`. -/
def linLinearizable (ops : Nat → LinOp) (n : Int) (init : Int32) : Int :=
  if n < 0 ∨ n > linMax then linInconclusive
  else if (linSearchMemo ops n.toNat (pred ops n.toNat) n.toNat 0 init emptyMemo).1 then 1 else 0

/-! The table: whatever a lookup finds was put in, and stays true of what is put in later. -/

/-- What holds of every configuration the table remembers. -/
def Remembers (failed : BitVec 64 → Int32 → Prop) (memo : LinMemo) : Prop :=
  ∀ i : Fin linMemoSize, memo[i.val].valid = true → failed memo[i.val].used memo[i.val].cur

theorem emptyMemo_remembers (failed : BitVec 64 → Int32 → Prop) : Remembers failed emptyMemo := by
  intro i valid
  simp [emptyMemo] at valid

theorem Remembers.set {failed : BitVec 64 → Int32 → Prop} {memo : LinMemo}
    (remembers : Remembers failed memo) {used : BitVec 64} {cur : Int32}
    (failure : failed used cur) (i : Fin linMemoSize) :
    Remembers failed (memo.set i ⟨used, cur, true⟩) := by
  intro j valid
  rw [Vector.getElem_set] at valid ⊢
  by_cases same : i.val = j.val
  · simpa [same] using failure
  · rw [if_neg same] at valid ⊢
    exact remembers j valid

theorem Remembers.of_get {failed : BitVec 64 → Int32 → Prop} {memo : LinMemo}
    (remembers : Remembers failed memo) {used : BitVec 64} {cur : Int32}
    (found : linMemoGet memo used cur = true) : failed used cur := by
  unfold linMemoGet at found
  generalize linMemoHash used cur = i at found
  generalize linMemoSize = probes at found
  induction probes generalizing i with
  | zero => cases found
  | succ probes ih =>
    unfold getFrom at found
    cases valid : memo[i.val].valid with
    | false => simp [valid] at found
    | true =>
      by_cases same : memo[i.val].used = used ∧ memo[i.val].cur = cur
      · obtain ⟨rfl, rfl⟩ := same
        exact remembers i valid
      · simp only [valid, same, Bool.not_true, Bool.false_eq_true, if_false] at found
        exact ih (nextSlot i) found

/-- Whether it takes a free slot, finds the configuration again or drops a full table. -/
theorem Remembers.put {failed : BitVec 64 → Int32 → Prop} {memo : LinMemo}
    (remembers : Remembers failed memo) {used : BitVec 64} {cur : Int32}
    (failure : failed used cur) : Remembers failed (linMemoPut memo used cur) := by
  have walk : ∀ (probes : Nat) (i : Fin linMemoSize),
      Remembers failed (putFrom memo used cur probes i) := by
    intro probes
    induction probes with
    | zero =>
      intro i
      exact (emptyMemo_remembers failed).set failure _
    | succ probes ih =>
      intro i
      unfold putFrom
      dsimp only
      split
      · exact remembers.set failure i
      · exact ih (nextSlot i)
  exact walk linMemoSize _

/-! The bits of a mask. -/

theorem getLsbD_bit {i : Nat} (small : i < 64) (j : Nat) :
    (bit i).getLsbD j = decide (j = i) := by
  rw [bit, ← BitVec.twoPow_eq, BitVec.getLsbD_twoPow]
  simp [small, eq_comm]

theorem getLsbD_place {used : BitVec 64} {i : Nat} (small : i < 64) (j : Nat) :
    (used ||| bit i).getLsbD j = true ↔ used.getLsbD j = true ∨ j = i := by
  rw [BitVec.getLsbD_or, getLsbD_bit small]
  simp

theorem and_bit_eq_zero {used : BitVec 64} {i : Nat} (small : i < 64) :
    used &&& bit i = 0 ↔ used.getLsbD i = false := by
  rw [bit, ← BitVec.twoPow_eq, BitVec.and_twoPow]
  cases given : used.getLsbD i with
  | false => simp
  | true =>
    simp only [if_true, reduceCtorEq, iff_false]
    intro zero
    have one := congrArg (fun mask => mask.getLsbD i) zero
    simp [small] at one

theorem and_not_eq_zero {mask used : BitVec 64} :
    mask &&& ~~~used = 0 ↔ ∀ j, mask.getLsbD j = true → used.getLsbD j = true := by
  constructor
  · intro zero j set
    have small : j < 64 := BitVec.lt_of_getLsbD set
    have none := congrArg (fun mask => mask.getLsbD j) zero
    simpa [set, small] using none
  · intro placed
    apply BitVec.eq_of_getLsbD_eq
    intro j small
    cases set : mask.getLsbD j with
    | false => simp [set]
    | true => simp [placed j set]

theorem getLsbD_pred (ops : Nat → LinOp) {n : Nat} (bounded : n ≤ 64) (i j : Nat) :
    (pred ops n i).getLsbD j = true ↔ j < n ∧ j ≠ i ∧ (ops j).resp < (ops i).inv := by
  have loop : ∀ (candidates : List Nat), (∀ k ∈ candidates, k < 64) → ∀ mask : BitVec 64,
      (candidates.foldl (fun mask k =>
        if k ≠ i ∧ (ops k).resp < (ops i).inv then mask ||| bit k else mask) mask).getLsbD j =
          true ↔ mask.getLsbD j = true ∨
            j ∈ candidates ∧ j ≠ i ∧ (ops j).resp < (ops i).inv := by
    intro candidates
    induction candidates with
    | nil => simp
    | cons k rest ih =>
      intro small mask
      have restSmall : ∀ k ∈ rest, k < 64 := fun k member => small k (List.mem_cons_of_mem _ member)
      rw [List.foldl_cons, ih restSmall]
      by_cases before : k ≠ i ∧ (ops k).resp < (ops i).inv
      · rw [if_pos before, getLsbD_place (small k (List.mem_cons_self ..)), List.mem_cons]
        constructor
        · rintro ((set | rfl) | ⟨member, rest⟩)
          · exact Or.inl set
          · exact Or.inr ⟨Or.inl rfl, before⟩
          · exact Or.inr ⟨Or.inr member, rest⟩
        · rintro (set | ⟨rfl | member, rest⟩)
          · exact Or.inl (Or.inl set)
          · exact Or.inl (Or.inr rfl)
          · exact Or.inr ⟨member, rest⟩
      · rw [if_neg before, List.mem_cons]
        constructor
        · rintro (set | ⟨member, rest⟩)
          · exact Or.inl set
          · exact Or.inr ⟨Or.inr member, rest⟩
        · rintro (set | ⟨rfl | member, rest⟩)
          · exact Or.inl set
          · exact absurd rest before
          · exact Or.inr ⟨member, rest⟩
  have small : ∀ k ∈ List.range n, k < 64 := by
    intro k member
    have := List.mem_range.mp member
    omega
  rw [pred, loop (List.range n) small]
  simp [List.mem_range]

/-! The two searches agree. -/

/-- The operations not placed yet. -/
def unplaced (n : Nat) (used : BitVec 64) : List Nat :=
  (List.range n).filter fun i => !used.getLsbD i

theorem unplaced_place {n : Nat} (bounded : n ≤ 64) {used : BitVec 64} {i : Nat} (given : i < n)
    (free : used.getLsbD i = false) {left : Nat} (count : (unplaced n used).length = left + 1) :
    (unplaced n (used ||| bit i)).length = left := by
  have removed : unplaced n (used ||| bit i) = (unplaced n used).erase i := by
    have distinct : (unplaced n used).Nodup := List.nodup_range.filter _
    rw [distinct.erase_eq_filter, unplaced, unplaced, List.filter_filter]
    apply List.filter_congr
    intro j _
    rw [BitVec.getLsbD_or, getLsbD_bit (by omega : i < 64)]
    by_cases same : j = i
    · simp [same]
    · simp [same]
  have member : i ∈ unplaced n used := by
    apply List.mem_filter.mpr
    exact ⟨List.mem_range.mpr given, by simp [free]⟩
  rw [removed, List.length_erase_of_mem member, count]
  rfl

theorem canPlace_free {ops : Nat → LinOp} {pred : Nat → BitVec 64} {used : BitVec 64}
    {curVal : Int32} {i : Nat} (small : i < 64)
    (placed : canPlace ops pred used curVal i = true) : used.getLsbD i = false := by
  have facts := of_decide_eq_true placed
  exact (and_bit_eq_zero small).mp facts.1

/-- Candidates tried in turn find what any of them finds, the table staying sound. -/
theorem tryEach_spec {attempt : Nat → LinMemo → Bool × LinMemo} {sound : LinMemo → Prop}
    {answer : Nat → Bool} (candidates : List Nat)
    (each : ∀ i ∈ candidates, ∀ memo, sound memo →
      (attempt i memo).1 = answer i ∧ sound (attempt i memo).2) (memo : LinMemo)
    (start : sound memo) :
    (tryEach attempt candidates memo).1 = candidates.any answer ∧
      sound (tryEach attempt candidates memo).2 := by
  induction candidates generalizing memo with
  | nil => exact ⟨rfl, start⟩
  | cons i rest ih =>
    obtain ⟨same, after⟩ := each i (List.mem_cons_self ..) memo start
    have later := fun k member => each k (List.mem_cons_of_mem i member)
    rw [tryEach, List.any_cons, ← same]
    cases result : attempt i memo with
    | mk found memo' =>
      rw [result] at after
      cases found with
      | true => exact ⟨rfl, after⟩
      | false => exact ih later memo' after

/-- A configuration from which the plain search finds nothing. -/
def DeadEnd (ops : Nat → LinOp) (n : Nat) (used : BitVec 64) (curVal : Int32) : Prop :=
  linSearch ops n (pred ops n) (unplaced n used).length used curVal = false

/-- From any table of dead ends the search with the table finds what the plain search finds,
and leaves a table of dead ends. -/
theorem linSearchMemo_eq (ops : Nat → LinOp) {n : Nat} (bounded : n ≤ 64) (left : Nat)
    (used : BitVec 64) (curVal : Int32) (memo : LinMemo)
    (count : (unplaced n used).length = left) (sound : Remembers (DeadEnd ops n) memo) :
    (linSearchMemo ops n (pred ops n) left used curVal memo).1 =
        linSearch ops n (pred ops n) left used curVal ∧
      Remembers (DeadEnd ops n) (linSearchMemo ops n (pred ops n) left used curVal memo).2 := by
  induction left generalizing used curVal memo with
  | zero => exact ⟨rfl, sound⟩
  | succ left ih =>
    unfold linSearchMemo
    by_cases hit : linMemoGet memo used curVal = true
    · have dead : linSearch ops n (pred ops n) (left + 1) used curVal = false := by
        rw [← count]
        exact sound.of_get hit
      rw [if_pos hit, dead]
      exact ⟨rfl, sound⟩
    · rw [if_neg hit]
      -- each candidate does what the plain search does with it
      have each : ∀ i ∈ List.range n, ∀ memo, Remembers (DeadEnd ops n) memo →
          (if canPlace ops (pred ops n) used curVal i then
              linSearchMemo ops n (pred ops n) left (used ||| bit i) (valAfter ops curVal i) memo
            else (false, memo)).1 =
            (canPlace ops (pred ops n) used curVal i &&
              linSearch ops n (pred ops n) left (used ||| bit i) (valAfter ops curVal i)) ∧
          Remembers (DeadEnd ops n) (if canPlace ops (pred ops n) used curVal i then
              linSearchMemo ops n (pred ops n) left (used ||| bit i) (valAfter ops curVal i) memo
            else (false, memo)).2 := by
        intro i member memo sound
        have given := List.mem_range.mp member
        cases placed : canPlace ops (pred ops n) used curVal i with
        | false => exact ⟨rfl, sound⟩
        | true =>
          have free := canPlace_free (by omega) placed
          exact ih _ _ memo (unplaced_place bounded given free count) sound
      obtain ⟨same, after⟩ := tryEach_spec (List.range n) each memo sound
      have plain : linSearch ops n (pred ops n) (left + 1) used curVal =
          (List.range n).any fun i => canPlace ops (pred ops n) used curVal i &&
            linSearch ops n (pred ops n) left (used ||| bit i) (valAfter ops curVal i) := rfl
      rw [← plain] at same
      dsimp only
      generalize tryEach _ (List.range n) memo = result at same after
      obtain ⟨found, memo'⟩ := result
      cases found with
      | true => exact ⟨same, after⟩
      | false =>
        refine ⟨same, after.put ?_⟩
        unfold DeadEnd
        rw [count]
        exact same.symm

theorem unplaced_zero (n : Nat) : (unplaced n 0).length = n := by
  simp [unplaced]

/-- Hash collisions, probe chains and dropped tables do not change the answer. -/
theorem linLinearizable_eq_oracle (ops : Nat → LinOp) (n : Int) (init : Int32) :
    linLinearizable ops n init = linOracle ops n init := by
  unfold linLinearizable linOracle
  by_cases outside : n < 0 ∨ n > linMax
  · simp [outside]
  · have bounded : n.toNat ≤ 64 := by
      unfold linMax at outside
      omega
    have same := (linSearchMemo_eq ops bounded n.toNat 0 init emptyMemo (unplaced_zero _)
      (emptyMemo_remembers _)).1
    rw [if_neg outside, if_neg outside, same]

/-! What both searches look for: an order of the operations that explains the history. -/

section Orders

variable (ops : Nat → LinOp) (n : Nat) (init : Int32)

/-- What a register holds after the operations: the value of the latest write, or the
initial value. -/
def latestVal (before : List Nat) : Int32 :=
  ((before.reverse.find? fun j => (ops j).isWrite).map fun j => (ops j).val).getD init

/-- An order of all operations that respects real time and in which every read returns the
latest preceding write or the initial value. -/
structure Explains (order : List Nat) : Prop where
  complete : order.Perm (List.range n)
  realTime : order.Pairwise fun i j => ¬ (ops j).resp < (ops i).inv
  reads : ∀ before i after, order = before ++ i :: after → (ops i).isWrite = false →
    (ops i).val = latestVal ops init before

/-- An operation may follow the ones before it. -/
structure Fits (before : List Nat) (i : Nat) : Prop where
  given : i < n
  fresh : i ∉ before
  preceded : ∀ j < n, j ≠ i → (ops j).resp < (ops i).inv → j ∈ before
  reads : (ops i).isWrite = false → (ops i).val = latestVal ops init before

/-- Every operation of a list may follow the ones before it. -/
def Continues (before order : List Nat) : Prop :=
  ∀ pre i post, order = pre ++ i :: post → Fits ops n init (before ++ pre) i

/-- The placements the plain search tries. -/
def Follows : BitVec 64 → Int32 → List Nat → Prop
  | _, _, [] => True
  | used, curVal, i :: rest =>
    i < n ∧ canPlace ops (pred ops n) used curVal i = true ∧
      Follows (used ||| bit i) (valAfter ops curVal i) rest

end Orders

variable {ops : Nat → LinOp} {n : Nat} {init : Int32}

theorem linSearch_iff (left : Nat) (used : BitVec 64) (curVal : Int32) :
    linSearch ops n (pred ops n) left used curVal = true ↔
      ∃ order, order.length = left ∧ Follows ops n used curVal order := by
  induction left generalizing used curVal with
  | zero =>
    constructor
    · intro _
      exact ⟨[], rfl, trivial⟩
    · intro _
      rfl
  | succ left ih =>
    unfold linSearch
    rw [List.any_eq_true]
    constructor
    · rintro ⟨i, member, both⟩
      obtain ⟨placed, found⟩ := Bool.and_eq_true_iff.mp both
      obtain ⟨order, length, follows⟩ := (ih _ _).mp found
      exact ⟨i :: order, congrArg (· + 1) length, List.mem_range.mp member, placed, follows⟩
    · rintro ⟨order, length, follows⟩
      cases order with
      | nil => cases length
      | cons i rest =>
        obtain ⟨given, placed, follows⟩ := follows
        have found := (ih _ _).mpr ⟨rest, Nat.succ.inj length, follows⟩
        exact ⟨i, List.mem_range.mpr given, Bool.and_eq_true_iff.mpr ⟨placed, found⟩⟩

theorem latestVal_append (before : List Nat) (i : Nat) :
    latestVal ops init (before ++ [i]) = valAfter ops (latestVal ops init before) i := by
  unfold latestVal valAfter
  rw [List.reverse_append, List.reverse_singleton, List.singleton_append, List.find?_cons]
  cases (ops i).isWrite with
  | true => rfl
  | false => rfl

/-- The test of the search, on a mask and a value that stand for what was placed before. -/
theorem canPlace_iff (bounded : n ≤ 64) {before : List Nat} {used : BitVec 64}
    (mask : ∀ j, used.getLsbD j = true ↔ j ∈ before) {i : Nat} (given : i < n) :
    canPlace ops (pred ops n) used (latestVal ops init before) i = true ↔
      Fits ops n init before i := by
  have small : i < 64 := by omega
  unfold canPlace
  rw [decide_eq_true_iff, and_bit_eq_zero small, and_not_eq_zero]
  have free : used.getLsbD i = false ↔ i ∉ before := by
    rw [← mask i, Bool.not_eq_true]
  rw [free]
  constructor
  · rintro ⟨fresh, placed, value⟩
    constructor
    · exact given
    · exact fresh
    · intro j inside other earlier
      exact (mask j).mp (placed j ((getLsbD_pred ops bounded i j).mpr ⟨inside, other, earlier⟩))
    · intro isRead
      cases value with
      | inl isWrite => simp [isRead] at isWrite
      | inr same => exact same.symm
  · intro fits
    refine ⟨fits.fresh, ?_, ?_⟩
    · intro j set
      obtain ⟨inside, other, earlier⟩ := (getLsbD_pred ops bounded i j).mp set
      exact (mask j).mpr (fits.preceded j inside other earlier)
    · cases kind : (ops i).isWrite with
      | true => exact Or.inl rfl
      | false => exact Or.inr (fits.reads kind).symm

theorem continues_cons {before rest : List Nat} {i : Nat} :
    Continues ops n init before (i :: rest) ↔
      Fits ops n init before i ∧ Continues ops n init (before ++ [i]) rest := by
  constructor
  · intro continues
    constructor
    · simpa using continues [] i rest rfl
    · intro pre j post split
      simpa using continues (i :: pre) j post (by rw [split]; rfl)
  · rintro ⟨fits, continues⟩ pre j post split
    cases pre with
    | nil =>
      obtain ⟨rfl, -⟩ := List.cons.inj split
      simpa using fits
    | cons k pre =>
      obtain ⟨rfl, rest⟩ := List.cons.inj split
      simpa using continues pre j post rest

theorem follows_iff (bounded : n ≤ 64) {before order : List Nat} {used : BitVec 64}
    (mask : ∀ j, used.getLsbD j = true ↔ j ∈ before) :
    Follows ops n used (latestVal ops init before) order ↔
      Continues ops n init before order := by
  induction order generalizing before used with
  | nil =>
    constructor
    · intro _ pre i post split
      simp at split
    · intro _
      trivial
  | cons i rest ih =>
    rw [continues_cons, Follows]
    have placed : i < n → ∀ j, (used ||| bit i).getLsbD j = true ↔ j ∈ before ++ [i] := by
      intro given j
      rw [getLsbD_place (by omega), mask j, List.mem_append, List.mem_singleton]
    constructor
    · rintro ⟨given, fits, follows⟩
      rw [← latestVal_append] at follows
      exact ⟨(canPlace_iff bounded mask given).mp fits, (ih (placed given)).mp follows⟩
    · rintro ⟨fits, continues⟩
      have given := fits.given
      refine ⟨given, (canPlace_iff bounded mask given).mpr fits, ?_⟩
      rw [← latestVal_append]
      exact (ih (placed given)).mpr continues

theorem Continues.pairwise {before order : List Nat}
    (continues : Continues ops n init before order) :
    order.Pairwise fun i j => i ≠ j ∧ ¬ (ops j).resp < (ops i).inv := by
  induction order generalizing before with
  | nil => exact List.Pairwise.nil
  | cons i rest ih =>
    obtain ⟨fits, later⟩ := continues_cons.mp continues
    refine List.Pairwise.cons ?_ (ih later)
    intro j member
    obtain ⟨pre, post, split⟩ := List.append_of_mem member
    have follows := later pre j post split
    have other : i ≠ j := by
      rintro rfl
      exact follows.fresh (by simp)
    refine ⟨other, fun earlier => follows.fresh ?_⟩
    have placed := fits.preceded j follows.given (Ne.symm other) earlier
    simp [placed]

/-- The full orders the search can place are the orders that explain the history. -/
theorem explains_iff {order : List Nat} :
    Explains ops n init order ↔ order.length = n ∧ Continues ops n init [] order := by
  constructor
  · intro explains
    have distinct : order.Nodup := explains.complete.nodup_iff.mpr List.nodup_range
    refine ⟨by rw [explains.complete.length_eq, List.length_range], ?_⟩
    intro pre i post split
    rw [List.nil_append]
    have member : ∀ j, j ∈ order ↔ j < n := by
      intro j
      rw [explains.complete.mem_iff, List.mem_range]
    constructor
    · exact (member i).mp (by simp [split])
    · rw [split] at distinct
      intro inside
      exact (List.nodup_append.mp distinct).2.2 i inside i (by simp) rfl
    · intro j inside other earlier
      have placed := (member j).mpr inside
      rw [split, List.mem_append, List.mem_cons] at placed
      rcases placed with first | same | after
      · exact first
      · exact absurd same other
      · have ordered := explains.realTime
        rw [split] at ordered
        have apart := (List.pairwise_append.mp ordered).2.1
        exact absurd earlier ((List.pairwise_cons.mp apart).1 j after)
    · exact explains.reads pre i post split
  · rintro ⟨length, continues⟩
    have apart := continues.pairwise
    have distinct : order.Nodup := apart.imp And.left
    have inside : order ⊆ List.range n := by
      intro i member
      obtain ⟨pre, post, split⟩ := List.append_of_mem member
      exact List.mem_range.mpr (continues pre i post split).given
    constructor
    · exact (List.subperm_of_subset distinct inside).perm_of_length_le (by simp [length])
    · exact apart.imp And.right
    · intro before i after split
      exact (continues before i after split).reads

/-- The plain search from nothing placed finds exactly the orders that explain. -/
theorem linSearch_explains (bounded : n ≤ 64) :
    linSearch ops n (pred ops n) n 0 init = true ↔ ∃ order, Explains ops n init order := by
  rw [linSearch_iff]
  apply exists_congr
  intro order
  rw [explains_iff]
  have mask : ∀ j, (0 : BitVec 64).getLsbD j = true ↔ j ∈ ([] : List Nat) := by simp
  rw [← follows_iff bounded mask]
  rfl

/-- The checker with the table answers what linearizability means. -/
theorem linLinearizable_correct (ops : Nat → LinOp) (n : Int) (init : Int32) (nonneg : 0 ≤ n)
    (fits : n ≤ linMax) :
    (linLinearizable ops n init = 1 ↔ ∃ order, Explains ops n.toNat init order) ∧
      (linLinearizable ops n init = 0 ↔ ¬ ∃ order, Explains ops n.toNat init order) ∧
      linLinearizable ops n init = linOracle ops n init := by
  have bounded : n.toNat ≤ 64 := by
    unfold linMax at fits
    omega
  have inside : ¬ (n < 0 ∨ n > linMax) := by omega
  have search := @linSearch_explains ops n.toNat init bounded
  have agrees := linLinearizable_eq_oracle ops n init
  rw [agrees, ← search]
  unfold linOracle
  rw [if_neg inside]
  cases linSearch ops n.toNat (pred ops n.toNat) n.toNat 0 init with
  | true => simp
  | false => simp

/-- A write of 1 and an overlapping read of 1: the read comes after. -/
theorem linLinearizable_overlap :
    linLinearizable (fun i => if i = 0 then ⟨true, 1, 0, 5⟩ else ⟨false, 1, 1, 2⟩) 2 (-1) = 1 := by
  have correct := linLinearizable_correct
    (fun i => if i = 0 then ⟨true, 1, 0, 5⟩ else ⟨false, 1, 1, 2⟩) 2 (-1) (by decide) (by decide)
  apply correct.1.mpr
  refine ⟨[0, 1], List.Perm.refl _, by decide, ?_⟩
  intro before i after split isRead
  match before, split with
  | [], split =>
    obtain ⟨rfl, -⟩ := List.cons.inj split
    cases isRead
  | [_], split =>
    obtain ⟨rfl, rest⟩ := List.cons.inj split
    obtain ⟨rfl, -⟩ := List.cons.inj rest
    decide
  | [_, _], split => simp at split
  | _ :: _ :: _ :: _, split => simp at split

end Kynovo.Harness.Lincheck
