import Mathlib.Data.Option.Basic

/-! Runs of a state machine whose events each meet a condition on the state before
them. -/
namespace Kynovo.Lib.Runs

variable {State Event : Type}

/-- The states of the runs from a start. -/
inductive Reaches (start : State → Prop) (step : State → Event → State)
    (cond : State → Event → Prop) : State → Prop where
  | start {s : State} (begins : start s) : Reaches start step cond s
  | step {s : State} {event : Event} (reached : Reaches start step cond s) (meets : cond s event) :
      Reaches start step cond (step s event)

variable {start : State → Prop} {step : State → Event → State} {cond : State → Event → Prop}

/-- An invariant of the start and of every step that meets the condition holds in every
run. -/
theorem Reaches.invariant {inv : State → Prop} (base : ∀ s, start s → inv s)
    (preserved : ∀ s event, inv s → cond s event → inv (step s event)) {s : State}
    (reached : Reaches start step cond s) : inv s := by
  induction reached with
  | start begins => exact base _ begins
  | step _ meets ih => exact preserved _ _ ih meets

/-- Where nothing is asked of an event, every list of events is a run. -/
theorem Reaches.foldl {s : State} (reached : Reaches start step (fun _ _ => True) s)
    (events : List Event) : Reaches start step (fun _ _ => True) (events.foldl step s) := by
  induction events generalizing s with
  | nil => exact reached
  | cons event rest ih => exact ih (reached.step trivial)

/-- The events happen as long as each meets the condition. -/
def through (step : State → Event → State) (cond : State → Event → Prop)
    [∀ s event, Decidable (cond s event)] (s : State) : List Event → Option State
  | [] => some s
  | event :: rest => if cond s event then through step cond (step s event) rest else none

theorem Reaches.through [∀ s event, Decidable (cond s event)] {events : List Event}
    {s final : State} (reached : Reaches start step cond s)
    (passed : through step cond s events = some final) : Reaches start step cond final := by
  induction events generalizing s with
  | nil =>
    cases passed
    exact reached
  | cons event rest ih =>
    unfold Runs.through at passed
    split at passed
    · rename_i meets
      exact ih (reached.step meets) passed
    · cases passed

/-- Events that pass their checks reach a state with a property that was computed. -/
theorem Reaches.exists_of_through (step : State → Event → State) (cond : State → Event → Prop)
    [∀ s event, Decidable (cond s event)] (first : Option State)
    (begins : ∀ s, first = some s → start s) (test : State → Bool) (events : List Event)
    (passed : (first.bind (fun s => Runs.through step cond s events)).any test = true) :
    ∃ s, Reaches start step cond s ∧ test s = true := by
  obtain ⟨final, given, tested⟩ := (Option.any_eq_true _ _).mp passed
  obtain ⟨s, started, passes⟩ := Option.bind_eq_some_iff.mp given
  exact ⟨final, (Reaches.start (begins s started)).through passes, tested⟩

end Kynovo.Lib.Runs
