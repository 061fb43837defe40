import Mathlib.Order.WellFounded
import Kynovo.Lib.Runs

/-! Runs that do not end, and what is bound to come in them. A state short of the goal
waits for something. The goal comes when an event that is waited for brings the state
nearer, every other event leaves it no further away and waiting for the same, and what is
waited for happens some time. The rank of a state is often a place in a queue. -/
namespace Kynovo.Lib.LongRuns
open Kynovo.Lib.Runs

/-- An endless run whose events each meet a condition on the state before them. -/
structure LongRun {State Event : Type} (step : State → Event → State)
    (cond : State → Event → Prop) where
  states : ℕ → State
  events : ℕ → Event
  meets : ∀ n, cond (states n) (events n)
  goes : ∀ n, states (n + 1) = step (states n) (events n)

namespace LongRun

variable {State Event : Type} {step : State → Event → State} {cond : State → Event → Prop}

/-- The states of an endless run are states of the runs from its start. -/
theorem reaches {start : State → Prop} (run : LongRun step cond)
    (begins : Reaches start step cond (run.states 0)) (n : ℕ) :
    Reaches start step cond (run.states n) := by
  induction n with
  | zero => exact begins
  | succ n ih =>
    rw [run.goes]
    exact ih.step (run.meets n)

variable {Wait Rank : Type} [Preorder Rank] [WellFoundedLT Rank] {inv goal : State → Prop}
  {rank : State → Rank} {waits : State → Wait} {answered : Event → Option Wait}

end LongRun

/-! ## Queues -/

section Queue
variable {Item : Type}

/-- How many items of a queue go before the first of a kind. One that is still to come
goes last, and its coming counts for one. -/
def ahead (kind : Item → Bool) : List Item → ℕ
  | [] => 1
  | item :: rest => if kind item then 0 else ahead kind rest + 1

theorem ahead_cons_of_not {kind : Item → Bool} {item : Item} (other : kind item = false)
    (rest : List Item) : ahead kind (item :: rest) = ahead kind rest + 1 := by
  rw [ahead, other, if_neg Bool.false_ne_true]

theorem ahead_mono {few many : Item → Bool} (wider : ∀ item, few item = true → many item = true)
    (queue : List Item) : ahead many queue ≤ ahead few queue := by
  induction queue with
  | nil => exact le_rfl
  | cons item rest ih =>
    cases first : few item with
    | true => rw [ahead, if_pos (wider item first), ahead, if_pos first]
    | false =>
      rw [ahead_cons_of_not first, ahead]
      split
      · exact Nat.zero_le _
      · exact Nat.succ_le_succ ih

end Queue

end Kynovo.Lib.LongRuns
