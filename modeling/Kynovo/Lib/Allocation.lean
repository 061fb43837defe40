import Mathlib.Logic.Basic

/-! Programs that allocate. A run is given, for each step that needs memory, whether it
gets it; the program fails at the first step that does not. What a program means is said
by the plain one, in which memory is never refused. -/
namespace Kynovo.Lib.Allocation

/-- Whether the steps that need memory get it, in their order. Behind the end all do. -/
abbrev Grants : Type := List Bool

abbrev Allocating (α : Type) : Type := StateT Grants Option α

variable {α β : Type}

/-- A step that needs memory. -/
def allocate (result : Option α) : Allocating α := fun grants =>
  match grants with
  | [] => result.map fun value => (value, [])
  | granted :: rest => if granted then result.map fun value => (value, rest) else none

/-- A run ends as the plain program does, or fails because memory was refused. -/
def Ends (grants : Grants) (run : Option (α × Grants)) (plain : Option α) : Prop :=
  (run = none ∧ (plain = none ∨ false ∈ grants)) ∨
    ∃ value rest, run = some (value, rest) ∧ plain = some value ∧ (false ∈ rest → false ∈ grants)

/-- The program does what the plain one does as far as it gets its memory. -/
def Follows (program : Allocating α) (plain : Option α) : Prop :=
  ∀ grants, Ends grants (program grants) plain

variable {program : Allocating α} {plain : Option α}

theorem Follows.ret (value : α) : Follows (pure value) (some value) :=
  fun grants => .inr ⟨value, grants, rfl, rfl, id⟩

theorem Follows.fail : Follows (failure : Allocating α) none := fun _ => .inl ⟨rfl, .inl rfl⟩

/-- A step that needs no memory. -/
theorem Follows.lift (plain : Option α) : Follows (liftM plain : Allocating α) plain := by
  intro grants
  cases plain with
  | none => exact .inl ⟨rfl, .inl rfl⟩
  | some value => exact .inr ⟨value, grants, rfl, rfl, id⟩

theorem Follows.allocate (plain : Option α) : Follows (allocate plain) plain := by
  intro grants
  cases plain with
  | none =>
    refine .inl ⟨?_, .inl rfl⟩
    cases grants with
    | nil => rfl
    | cons granted rest => cases granted <;> rfl
  | some value =>
    cases grants with
    | nil => exact .inr ⟨value, [], rfl, rfl, id⟩
    | cons granted rest =>
      cases granted with
      | false => exact .inl ⟨rfl, .inr List.mem_cons_self⟩
      | true => exact .inr ⟨value, rest, rfl, rfl, List.mem_cons_of_mem true⟩

theorem Follows.bind {next : α → Allocating β} {plainNext : α → Option β}
    (first : Follows program plain)
    (later : ∀ value, plain = some value → Follows (next value) (plainNext value)) :
    Follows (program >>= next) (plain >>= plainNext) := by
  intro grants
  rcases first grants with ⟨stopped, why⟩ | ⟨value, rest, ran, same, fewer⟩
  · refine .inl ⟨by simp only [Bind.bind, StateT.bind, stopped]; rfl, ?_⟩
    rcases why with none | refused
    · exact .inl (by rw [none]; rfl)
    · exact .inr refused
  · have run : (program >>= next) grants = next value rest := by
      simp only [Bind.bind, StateT.bind, ran]
      rfl
    have plainRun : (plain >>= plainNext) = plainNext value := by
      rw [same]
      rfl
    rw [run, plainRun]
    rcases later value same rest with ⟨stopped, why⟩ | ⟨final, left, ran', same', fewer'⟩
    · exact .inl ⟨stopped, why.imp_right fewer⟩
    · exact .inr ⟨final, left, ran', same', fun refused => fewer (fewer' refused)⟩

theorem Follows.stop {next : α → Allocating β} (first : Follows program none) :
    Follows (program >>= next) none :=
  @Follows.bind _ _ _ _ next (fun _ => none) first fun _ same => by cases same

/-- A step whose value is known, in front of the rest. -/
theorem Follows.known {value : α} {next : α → Allocating β} {plain : Option β}
    (first : Follows program (some value)) (rest : Follows (next value) plain) :
    Follows (program >>= next) plain := by
  apply @Follows.bind _ _ _ _ next (fun _ => plain) first
  rintro other same
  cases same
  exact rest

theorem Follows.ite {choice : Prop} [Decidable choice] {yes no : Allocating α}
    {plainYes plainNo : Option α} (first : Follows yes plainYes) (second : Follows no plainNo) :
    Follows (if choice then yes else no) (if choice then plainYes else plainNo) := by
  split
  · exact first
  · exact second

/-- With no memory refused the program is the plain one. -/
theorem Follows.granted (follows : Follows program plain) {grants : Grants}
    (granted : false ∉ grants) : (program grants).map Prod.fst = plain := by
  rcases follows grants with ⟨stopped, none | refused⟩ | ⟨value, rest, ran, same, -⟩
  · rw [stopped, none]
    rfl
  · exact absurd refused granted
  · rw [ran, same]
    rfl

end Kynovo.Lib.Allocation
