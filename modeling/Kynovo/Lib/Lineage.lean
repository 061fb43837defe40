import Mathlib.Data.List.Infix
import Mathlib.Data.List.Pairwise
import Mathlib.Order.Basic

/-! Logs whose items carry a label, where each label has one history: whatever
ends in an item of a label is the history of that label up to there. Logs that
are rooted so agree up to any two items of the same label. -/
namespace Kynovo.Lib.Lineage

variable {α τ : Type*} {label : α → τ} {history history' : τ → List α} {log log' : List α}

/-- Each item stands in the history of its label, after the same items. -/
def Rooted (label : α → τ) (history : τ → List α) (log : List α) : Prop :=
  ∀ (n : Nat) (held : n < log.length), log.take (n + 1) <+: history (label log[n])

theorem rooted_nil : Rooted label history [] := fun _ held => absurd held (Nat.not_lt_zero _)

/-- Rooted logs with the same label at a place are the same up to there. -/
theorem Rooted.agree (rooted : Rooted label history log) (rooted' : Rooted label history log')
    {n : Nat} (held : n < log.length) (held' : n < log'.length)
    (same : label log[n] = label log'[n]) : log.take (n + 1) = log'.take (n + 1) := by
  have first := rooted n held
  have second := rooted' n held'
  rw [← same] at second
  have lengths : (log.take (n + 1)).length = (log'.take (n + 1)).length := by
    rw [List.length_take_of_le held, List.length_take_of_le held']
  exact (List.prefix_of_prefix_length_le first second lengths.le).eq_of_length lengths

/-- Histories may grow. -/
theorem Rooted.grow (rooted : Rooted label history log) (grown : ∀ t, history t <+: history' t) :
    Rooted label history' log := fun n held => (rooted n held).trans (grown _)

theorem Rooted.of_prefix (rooted : Rooted label history log) (front : log' <+: log) :
    Rooted label history log' := by
  intro n held
  obtain ⟨rest, rfl⟩ := front
  have inside : n < (log' ++ rest).length := by
    rw [List.length_append]
    omega
  have here := rooted n inside
  rwa [List.getElem_append_left held, List.take_append_of_le_length held] at here

/-- Items of one label may be put behind a rooted log if its history has them there. -/
theorem Rooted.extend (rooted : Rooted label history log) {t : τ} {new : List α}
    (labelled : ∀ item ∈ new, label item = t) (known : log ++ new <+: history t) :
    Rooted label history (log ++ new) := by
  intro n held
  rcases Nat.lt_or_ge n log.length with old | isNew
  · have here := rooted n old
    rwa [List.getElem_append_left old, List.take_append_of_le_length old]
  · have item : label (log ++ new)[n] = t := by
      rw [List.getElem_append_right isNew]
      exact labelled _ (List.getElem_mem _)
    rw [item]
    exact (List.take_prefix _ _).trans known

/-- A rooted log ends in an item of a label: it is the history of that label up to its
own length. -/
theorem Rooted.whole (rooted : Rooted label history log) (last : α) (ends : log.getLast? = some last) :
    log <+: history (label last) := by
  obtain ⟨front, rfl⟩ := List.getLast?_eq_some_iff.mp ends
  have here := rooted front.length (by simp)
  have all : (front ++ [last]).take (front.length + 1) = front ++ [last] :=
    List.take_of_length_le (by simp)
  rw [all] at here
  simpa using here

/-- What holds of every piece of a history holds of a rooted log. -/
theorem Rooted.carry (rooted : Rooted label history log) {P : List α → Prop}
    (none : P []) (piece : ∀ {long short : List α}, short <+: long → P long → P short)
    (known : ∀ t, P (history t)) : P log := by
  cases ends : log.getLast? with
  | none =>
    rw [List.getLast?_eq_none_iff.mp ends]
    exact none
  | some last => exact piece (rooted.whole last ends) (known _)

end Kynovo.Lib.Lineage
