import Mathlib.Order.Lattice
import Mathlib.Data.List.DropRight
import Mathlib.Data.List.Pairwise
import Mathlib.Data.Int.Order.Basic

/-! Logs whose items carry an index, rebuilt from restatements. A restatement
is a run of items: it cuts the log at its first index and continues it with the
run, so the last version of an index wins. `put` inserts one item the way a
replay does, working from the end; over ascending logs the two agree. -/
namespace Kynovo.Lib.IndexedLog

variable {α ι : Type*} [LinearOrder ι] (index : α → ι)

/-- The items below an index. -/
def cut (bound : ι) (log : List α) : List α := log.filter (fun item => index item < bound)

/-- A run of items restates the log from its first index on. -/
def restate (log run : List α) : List α :=
  match run with
  | [] => log
  | first :: _ => cut index (index first) log ++ run

/-- One item is put behind everything below it; what it reaches or passes is
dropped from the end. -/
def put (log : List α) (item : α) : List α :=
  log.rdropWhile (fun old => index item ≤ index old) ++ [item]

/-- Strictly ascending indexes. -/
def Ascending (log : List α) : Prop := log.Pairwise (fun a b => index a < index b)

instance (log : List α) : Decidable (Ascending index log) :=
  inferInstanceAs (Decidable (log.Pairwise _))

variable {index}

theorem rdropWhile_eq_cut {log : List α} (ascending : Ascending index log) (bound : ι) :
    log.rdropWhile (fun old => bound ≤ index old) = cut index bound log := by
  induction log using List.reverseRecOn with
  | nil => rfl
  | append_singleton front last ih =>
    obtain ⟨frontAscending, -, below⟩ := List.pairwise_append.mp ascending
    by_cases reached : bound ≤ index last
    · rw [List.rdropWhile_concat_pos _ _ _ (by simpa using reached), ih frontAscending]
      simp [cut, List.filter_append, not_lt.mpr reached]
    · rw [List.rdropWhile_concat_neg _ _ _ (by simpa using reached)]
      have all : ∀ item ∈ front ++ [last], index item < bound := by
        intro item member
        rcases List.mem_append.mp member with inFront | isLast
        · exact lt_trans (below item inFront last (by simp)) (not_le.mp reached)
        · rw [List.mem_singleton.mp isLast]; exact not_le.mp reached
      exact (List.filter_eq_self.mpr (by simpa using all)).symm

theorem put_eq {log : List α} (ascending : Ascending index log) (item : α) :
    put index log item = cut index (index item) log ++ [item] := by
  rw [put, rdropWhile_eq_cut ascending]

theorem Ascending.cut {log : List α} (ascending : Ascending index log) (bound : ι) :
    Ascending index (cut index bound log) :=
  List.Pairwise.filter _ ascending

theorem cut_lt {log : List α} {bound : ι} {item : α} (member : item ∈ cut index bound log) :
    index item < bound := by
  simpa using (List.mem_filter.mp member).2

theorem Ascending.put {log : List α} (ascending : Ascending index log) (item : α) :
    Ascending index (put index log item) := by
  rw [put_eq ascending]
  refine List.pairwise_append.mpr ⟨ascending.cut _, List.pairwise_singleton _ _, ?_⟩
  intro a memberA b memberB
  rw [List.mem_singleton.mp memberB]
  exact cut_lt memberA

theorem Ascending.restate {log run : List α} (ascending : Ascending index log)
    (runAscending : Ascending index run) : Ascending index (restate index log run) := by
  cases run with
  | nil => exact ascending
  | cons first rest =>
    refine List.pairwise_append.mpr ⟨ascending.cut _, runAscending, ?_⟩
    intro a memberA b memberB
    have low := cut_lt memberA
    rcases List.mem_cons.mp memberB with rfl | inRest
    · exact low
    · exact lt_trans low ((List.pairwise_cons.mp runAscending).1 b inRest)

theorem cut_eq_self {log : List α} {bound : ι} (below : ∀ item ∈ log, index item < bound) :
    cut index bound log = log :=
  List.filter_eq_self.mpr (by simpa using below)

/-- Inserting an ascending run item by item restates the log once. -/
theorem foldl_put {log run : List α} (ascending : Ascending index log)
    (runAscending : Ascending index run) :
    run.foldl (put index) log = restate index log run := by
  cases run with
  | nil => rfl
  | cons first rest =>
    have settled : ∀ (items front : List α), Ascending index (front ++ items) →
        items.foldl (put index) front = front ++ items := by
      intro items
      induction items with
      | nil => intro front _; simp
      | cons item items ih =>
        intro front both
        obtain ⟨frontAscending, itemsAscending, below⟩ := List.pairwise_append.mp both
        rw [List.foldl_cons, put_eq frontAscending,
          cut_eq_self (fun old member => below old member item (by simp)), ih _ (by simpa using both)]
        simp
    rw [List.foldl_cons, put_eq ascending, settled]
    · simp [restate]
    · simpa [restate] using ascending.restate runAscending

/-- Ascending items that all lie at or above a bound are cut to nothing. -/
theorem cut_eq_nil {log : List α} {bound : ι} (above : ∀ item ∈ log, bound ≤ index item) :
    cut index bound log = [] :=
  List.filter_eq_nil_iff.mpr (by simpa using above)

theorem mem_restate {log run : List α} {item : α} (member : item ∈ restate index log run) :
    item ∈ log ∨ item ∈ run := by
  cases run with
  | nil => exact Or.inl member
  | cons first rest =>
    rcases List.mem_append.mp member with old | new
    · exact Or.inl (List.mem_filter.mp old).1
    · exact Or.inr new

/-- An ascending log splits at every bound. -/
theorem cut_append_rest {log : List α} (ascending : Ascending index log) (bound : ι) :
    cut index bound log ++ log.filter (fun item => bound ≤ index item) = log := by
  induction log with
  | nil => rfl
  | cons first rest ih =>
    obtain ⟨below, restAscending⟩ := List.pairwise_cons.mp ascending
    by_cases low : index first < bound
    · have tail := ih restAscending
      simp only [cut] at tail
      simp [cut, low, not_le.mpr low, tail]
    · have high : ∀ item ∈ rest, bound ≤ index item :=
        fun item member => le_trans (not_lt.mp low) (le_of_lt (below item member))
      have above : ∀ item ∈ first :: rest, bound ≤ index item := by
        intro item member
        rcases List.mem_cons.mp member with rfl | inRest
        · exact not_lt.mp low
        · exact high item inRest
      rw [cut_eq_nil above, List.nil_append]
      exact List.filter_eq_self.mpr (by simpa using above)

/-! ## Lookups -/

variable [BEq ι] [LawfulBEq ι]

/-- The items above a restatement's first index are looked up in the run. -/
theorem find_restate_of_le {log rest : List α} {first : α} {idx : ι} (reached : index first ≤ idx) :
    (restate index log (first :: rest)).find? (fun item => index item == idx) =
      (first :: rest).find? (fun item => index item == idx) := by
  have missing : (cut index (index first) log).find? (fun item => index item == idx) = none := by
    rw [List.find?_eq_none]
    intro item member
    have low := lt_of_lt_of_le (cut_lt member) reached
    simpa using low.ne
  rw [restate, List.find?_append, missing, Option.none_or]

/-- Below its first index a restatement changes nothing. -/
theorem find_restate_of_lt {log rest : List α} {first : α} {idx : ι}
    (ascending : Ascending index (first :: rest)) (below : idx < index first) :
    (restate index log (first :: rest)).find? (fun item => index item == idx) =
      log.find? (fun item => index item == idx) := by
  have missing : (first :: rest).find? (fun item => index item == idx) = none := by
    rw [List.find?_eq_none]
    intro item member
    have high : index first ≤ index item := by
      rcases List.mem_cons.mp member with rfl | inRest
      · exact le_refl _
      · exact le_of_lt ((List.pairwise_cons.mp ascending).1 item inRest)
    simpa using (lt_of_lt_of_le below high).ne'
  rw [restate, List.find?_append, missing, Option.or_none, cut, List.find?_filter]
  congr 1
  funext item
  by_cases hit : index item = idx
  · simp [hit, below]
  · simp [hit]

/-- An ascending log finds each of its items by its index. -/
theorem find_of_mem {log : List α} (ascending : Ascending index log) {item : α}
    (member : item ∈ log) : log.find? (fun other => index other == index item) = some item := by
  induction log with
  | nil => cases member
  | cons first rest ih =>
    obtain ⟨below, restAscending⟩ := List.pairwise_cons.mp ascending
    rcases List.mem_cons.mp member with rfl | inRest
    · simp
    · have other : index first ≠ index item := (below item inRest).ne
      rw [List.find?_cons_of_neg (by simpa using other), ih restAscending inRest]

end Kynovo.Lib.IndexedLog
