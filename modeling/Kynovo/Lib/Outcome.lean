import Mathlib.Logic.Basic

/-! Programs that may fail: what holds of the result, or else of the failure. -/
namespace Kynovo.Lib.Outcome

variable {ε α β : Type} {excused : ε → Prop} {program : Except ε α} {next : α → Except ε β}
  {post : α → Prop} {goal : β → Prop}

/-- The program returns what satisfies `post`, or fails in a way that is excused. -/
def Yields (excused : ε → Prop) (program : Except ε α) (post : α → Prop) : Prop :=
  match program with
  | .ok value => post value
  | .error failure => excused failure

theorem Yields.ret {value : α} (holds : post value) : Yields excused (pure value) post := holds

theorem Yields.bind (first : Yields excused program post)
    (rest : ∀ value, post value → Yields excused (next value) goal) :
    Yields excused (program >>= next) goal := by
  cases program with
  | ok value => exact rest value first
  | error failure => exact first

theorem Yields.mono {post' : α → Prop} (first : Yields excused program post)
    (weaker : ∀ value, post value → post' value) : Yields excused program post' := by
  cases program with
  | ok value => exact weaker value first
  | error failure => exact first

theorem Yields.of_ok (first : Yields excused program post) {value : α} (ok : program = .ok value) :
    post value := by
  subst ok
  exact first

theorem Yields.of_error (first : Yields excused program post) {failure : ε}
    (failed : program = .error failure) : excused failure := by
  subst failed
  exact first

/-- A program that is known to return. -/
theorem Yields.ok_bind {value : α} (ok : program = .ok value)
    (rest : Yields excused (next value) goal) : Yields excused (program >>= next) goal := by
  subst ok
  exact rest

end Kynovo.Lib.Outcome
