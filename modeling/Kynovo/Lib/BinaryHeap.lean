import Mathlib.Order.Lattice
import Mathlib.Order.Basic
import Mathlib.Data.Nat.Basic

/-! Binary heaps in numbered cells. An item that is out of order moves by exchanges with
the cell above it, or with the lesser of the cells below it; each exchange leaves one cell
in question, and when it is settled the heap is ordered. -/
namespace Kynovo.Lib.BinaryHeap

variable {α κ : Type*} [LinearOrder κ] {key : α → κ} {cells : Nat → α} {n hole : Nat}

def parent (i : Nat) : Nat := (i - 1) / 2

def exchange (cells : Nat → α) (a b : Nat) : Nat → α := fun i =>
  if i = a then cells b else if i = b then cells a else cells i

@[simp] theorem exchange_left (cells : Nat → α) (a b : Nat) : exchange cells a b a = cells b := by
  simp [exchange]

@[simp] theorem exchange_right (cells : Nat → α) (a b : Nat) : exchange cells a b b = cells a := by
  unfold exchange
  split
  · rename_i same
    rw [same]
  · simp

theorem exchange_other (cells : Nat → α) {a b i : Nat} (left : i ≠ a) (right : i ≠ b) :
    exchange cells a b i = cells i := by simp [exchange, left, right]

/-- No cell is before the one above it. -/
def Ordered (key : α → κ) (n : Nat) (cells : Nat → α) : Prop :=
  ∀ i, 0 < i → i < n → key (cells (parent i)) ≤ key (cells i)

theorem parent_lt {i : Nat} (below : 0 < i) : parent i < i := by
  unfold parent
  omega

/-- The first cell of a heap is the least. -/
theorem Ordered.root (ordered : Ordered key n cells) {i : Nat} (held : i < n) :
    key (cells 0) ≤ key (cells i) := by
  induction i using Nat.strongRecOn with
  | ind i ih =>
    cases i with
    | zero => exact le_refl _
    | succ before =>
      have above := parent_lt (Nat.succ_pos before)
      exact (ih _ above (by omega)).trans (ordered _ (Nat.succ_pos before) held)

/-- The cells under a cell are not before the one above it. -/
def Spans (key : α → κ) (n : Nat) (cells : Nat → α) (hole : Nat) : Prop :=
  0 < hole → ∀ i, 0 < i → i < n → parent i = hole → key (cells (parent hole)) ≤ key (cells i)

theorem Ordered.spans (ordered : Ordered key n cells) (held : hole < n) :
    Spans key n cells hole := by
  intro below i positive inside under
  refine (ordered hole below held).trans ?_
  rw [← under]
  exact ordered i positive inside

/-! ## Moving up -/

/-- Ordered but for one cell and the one above it. -/
structure Rising (key : α → κ) (n : Nat) (cells : Nat → α) (hole : Nat) : Prop where
  others : ∀ i, 0 < i → i < n → i ≠ hole → key (cells (parent i)) ≤ key (cells i)
  spans : Spans key n cells hole

theorem Rising.settle (rising : Rising key n cells hole)
    (settled : 0 < hole → key (cells (parent hole)) ≤ key (cells hole)) : Ordered key n cells := by
  intro i positive inside
  cases decEq i hole with
  | isTrue same =>
    subst same
    exact settled positive
  | isFalse other => exact rising.others i positive inside other

/-- A new last cell is all that may be out of order. -/
theorem Ordered.grown (ordered : Ordered key n cells) : Rising key (n + 1) cells n where
  others := fun i positive inside other => ordered i positive (by omega)
  spans := fun below i positive inside under => by
    have above := parent_lt positive
    omega

theorem Rising.exchanged (rising : Rising key n cells hole) (below : 0 < hole) (held : hole < n)
    (early : key (cells hole) < key (cells (parent hole))) :
    Rising key n (exchange cells hole (parent hole)) (parent hole) where
  others := fun i positive inside other => by
    have above := parent_lt below
    have up := parent_lt positive
    cases decEq i hole with
    | isTrue same =>
      rw [same, exchange_left, exchange_right]
      exact early.le
    | isFalse different =>
      rw [exchange_other cells different other]
      cases decEq (parent i) hole with
      | isTrue under =>
        rw [under, exchange_left]
        exact rising.spans below i positive inside under
      | isFalse apart =>
        have line := rising.others i positive inside different
        cases decEq (parent i) (parent hole) with
        | isTrue beside =>
          rw [beside, exchange_right]
          rw [beside] at line
          exact early.le.trans line
        | isFalse elsewhere =>
          rw [exchange_other cells apart elsewhere]
          exact line
  spans := fun higher i positive inside under => by
    have above := parent_lt below
    have top := parent_lt higher
    have line := rising.others (parent hole) higher (by omega) (by omega)
    rw [exchange_other cells (by omega) (by omega)]
    cases decEq i hole with
    | isTrue same =>
      rw [same, exchange_left]
      exact line
    | isFalse different =>
      have other : i ≠ parent hole := by
        have up := parent_lt positive
        omega
      rw [exchange_other cells different other]
      refine line.trans ?_
      rw [← under]
      exact rising.others i positive inside different

/-! ## Moving down -/

/-- Ordered but for one cell and those below it. -/
structure Sinking (key : α → κ) (n : Nat) (cells : Nat → α) (hole : Nat) : Prop where
  others : ∀ i, 0 < i → i < n → parent i ≠ hole → key (cells (parent i)) ≤ key (cells i)
  spans : Spans key n cells hole

theorem Sinking.settle (sinking : Sinking key n cells hole)
    (settled : ∀ i, 0 < i → i < n → parent i = hole → key (cells hole) ≤ key (cells i)) :
    Ordered key n cells := by
  intro i positive inside
  cases decEq (parent i) hole with
  | isTrue under =>
    rw [under]
    exact settled i positive inside under
  | isFalse apart => exact sinking.others i positive inside apart

theorem Sinking.exchanged (sinking : Sinking key n cells hole) {best : Nat} (child : 0 < best)
    (under : parent best = hole) (held : best < n) (late : key (cells best) < key (cells hole))
    (least : ∀ i, 0 < i → i < n → parent i = hole → key (cells best) ≤ key (cells i)) :
    Sinking key n (exchange cells hole best) best where
  others := fun i positive inside apart => by
    have above := parent_lt child
    have up := parent_lt positive
    cases decEq i best with
    | isTrue same =>
      subst same
      rw [under, exchange_left, exchange_right]
      exact late.le
    | isFalse different =>
      cases decEq (parent i) hole with
      | isTrue beside =>
        rw [beside, exchange_left, exchange_other cells (by omega) different]
        exact least i positive inside beside
      | isFalse elsewhere =>
        rw [exchange_other cells elsewhere apart]
        have line := sinking.others i positive inside elsewhere
        cases decEq i hole with
        | isTrue same =>
          subst same
          rw [exchange_left]
          exact sinking.spans positive best child held under
        | isFalse other =>
          rw [exchange_other cells other different]
          exact line
  spans := fun _ i positive inside below => by
    have above := parent_lt child
    have up := parent_lt positive
    rw [under, exchange_left, exchange_other cells (by omega) (by omega)]
    have line := sinking.others i positive inside (by omega)
    rwa [below] at line

/-- Another item in one cell leaves the heap rising or sinking there. -/
theorem Ordered.replaced (ordered : Ordered key n cells) (held : hole < n) {cells' : Nat → α}
    (kept : ∀ i, i < n → i ≠ hole → cells' i = cells i) :
    (key (cells' hole) < key (cells' (parent hole)) → Rising key n cells' hole) ∧
      (¬ (0 < hole ∧ key (cells' hole) < key (cells' (parent hole))) →
        Sinking key n cells' hole) := by
  have spans : Spans key n cells' hole := by
    intro below i positive inside under
    have above := parent_lt below
    have up := parent_lt positive
    rw [kept _ (by omega) (by omega), kept _ inside (by omega)]
    exact ordered.spans held below i positive inside under
  have others : ∀ i, 0 < i → i < n → i ≠ hole → parent i ≠ hole →
      key (cells' (parent i)) ≤ key (cells' i) := by
    intro i positive inside other apart
    have up := parent_lt positive
    rw [kept _ (by omega) apart, kept _ inside other]
    exact ordered i positive inside
  refine ⟨fun early => ⟨fun i positive inside other => ?_, spans⟩,
    fun late => ⟨fun i positive inside apart => ?_, spans⟩⟩
  · cases decEq (parent i) hole with
    | isTrue under =>
      have below : 0 < hole := by
        rcases Nat.eq_zero_or_pos hole with top | below
        · subst top
          exact absurd early (lt_irrefl _)
        · exact below
      rw [under]
      exact early.le.trans (spans below i positive inside under)
    | isFalse apart => exact others i positive inside other apart
  · cases decEq i hole with
    | isTrue same =>
      subst same
      exact not_lt.mp (fun early => late ⟨positive, early⟩)
    | isFalse other => exact others i positive inside other apart

end Kynovo.Lib.BinaryHeap
