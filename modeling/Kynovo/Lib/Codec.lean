import Kynovo.Lib.LittleEndian

/-! Readers over byte lists and what they accept. A reader takes a value off the
front and returns the bytes behind it. `Codec known read write Valid` says that
it accepts exactly the encodings of valid values, whatever follows them; `known`
collects the fields a record reader has already read. A record is proved field
by field: `field` for each read, `guard` for each check, `last` at the end. -/
namespace Kynovo.Lib

abbrev Reader (α : Type) := List UInt8 → Option (α × List UInt8)

def Codec {α : Type} (known : α → Prop) (read : Reader α) (write : α → List UInt8)
    (Valid : α → Prop) : Prop :=
  ∀ bytes value rest, read bytes = some (value, rest) ↔
    bytes = write value ++ rest ∧ known value ∧ Valid value

/-- A reader of a value nothing is known of. -/
abbrev Codec.Whole {α : Type} (read : Reader α) (write : α → List UInt8) (Valid : α → Prop) :
    Prop :=
  Codec (fun _ => True) read write Valid

namespace Codec
variable {α β : Type} {known : α → Prop} {read : Reader α} {write : α → List UInt8}
  {Valid : α → Prop}

theorem Whole.reads (codec : Whole read write Valid) {value : α} (valid : Valid value)
    (rest : List UInt8) : read (write value ++ rest) = some (value, rest) :=
  (codec _ _ _).mpr ⟨rfl, trivial, valid⟩

theorem Whole.accepts (codec : Whole read write Valid) {bytes rest : List UInt8} {value : α}
    (accepted : read bytes = some (value, rest)) : bytes = write value ++ rest ∧ Valid value := by
  obtain ⟨split, -, valid⟩ := (codec _ _ _).mp accepted
  exact ⟨split, valid⟩

/-- Where a value ends does not depend on what follows, so if a run of bytes is
read to its end, no longer run is. -/
theorem Whole.rest_unique (codec : Whole read write Valid) {bytes extra : List UInt8}
    {value other : α} (short : read bytes = some (value, []))
    (long : read (bytes ++ extra) = some (other, [])) : extra = [] := by
  obtain ⟨split, valid⟩ := codec.accepts short
  rw [split, List.append_nil, codec.reads valid extra] at long
  exact (Prod.mk.inj (Option.some.inj long)).2

/-- No proper part of it is read to its end either. -/
theorem Whole.part_unread (codec : Whole read write Valid) {bytes : List UInt8} {value other : α}
    {length : Nat} (whole : read bytes = some (value, [])) (short : length < bytes.length) :
    read (bytes.take length) ≠ some (other, []) := by
  intro part
  rw [← List.take_append_drop length bytes] at whole
  have none_left := congrArg List.length (codec.rest_unique part whole)
  rw [List.length_drop, List.length_nil] at none_left
  omega

/-- One field is read and the rest of the record after it; what was read before
may fix the size of the field. -/
theorem fieldSized {readField : Reader β} {writeField : β → List UInt8} {Sized ValidField : β → Prop}
    {next : β × List UInt8 → Option (α × List UInt8)} (project : α → β)
    (sized : ∀ value, known value → Sized (project value))
    (first : Whole readField writeField (fun part => Sized part ∧ ValidField part))
    (later : ∀ part, Sized part → Codec (fun value => known value ∧ project value = part)
      (fun bytes => next (part, bytes)) write Valid) :
    Codec known (fun bytes => readField bytes >>= next)
      (fun value => writeField (project value) ++ write value)
      (fun value => ValidField (project value) ∧ Valid value) := by
  intro bytes value rest
  simp only [Option.bind_eq_bind, Option.bind_eq_some_iff, Prod.exists]
  constructor
  · rintro ⟨part, middle, taken, following⟩
    obtain ⟨rfl, fits, validField⟩ := first.accepts taken
    obtain ⟨rfl, ⟨holds, rfl⟩, valid⟩ := (later part fits _ _ _).mp following
    exact ⟨by rw [List.append_assoc], holds, validField, valid⟩
  · rintro ⟨rfl, holds, validField, valid⟩
    refine ⟨project value, write value ++ rest, ?_, ?_⟩
    · rw [List.append_assoc]
      exact first.reads ⟨sized value holds, validField⟩ _
    · exact (later _ (sized value holds) _ _ _).mpr ⟨rfl, ⟨holds, rfl⟩, valid⟩

/-- A field of its own size. -/
theorem field {readField : Reader β} {writeField : β → List UInt8} {ValidField : β → Prop}
    {next : β × List UInt8 → Option (α × List UInt8)} (project : α → β)
    (first : Whole readField writeField ValidField)
    (later : ∀ part, Codec (fun value => known value ∧ project value = part)
      (fun bytes => next (part, bytes)) write Valid) :
    Codec known (fun bytes => readField bytes >>= next)
      (fun value => writeField (project value) ++ write value)
      (fun value => ValidField (project value) ∧ Valid value) := by
  have free : Whole readField writeField (fun part => True ∧ ValidField part) := by
    simpa only [true_and] using first
  exact fieldSized project (fun _ _ => trivial) free fun part _ => later part

/-- A check on what is read so far, which the values it refuses do not meet. -/
theorem guard {bad : Prop} [Decidable bad] (passes : ¬ bad → Codec known read write Valid)
    (refuses : bad → ∀ value, known value → ¬ Valid value) :
    Codec known (fun bytes => if bad then none else read bytes) write Valid := by
  intro bytes value rest
  by_cases refused : bad
  · simp only [if_pos refused, reduceCtorEq, false_iff]
    rintro ⟨-, holds, valid⟩
    exact refuses refused value holds valid
  · simp only [if_neg refused]
    exact passes refused bytes value rest

/-- The last field completes the record; what was read before it may fix its
size. -/
theorem lastSized {readField : Reader β} {writeField : β → List UInt8} {Sized ValidField : β → Prop}
    {next : β × List UInt8 → Option (α × List UInt8)} (project : α → β)
    (sized : ∀ value, known value → Sized (project value))
    (first : Whole readField writeField (fun part => Sized part ∧ ValidField part)) {build : β → α}
    (ends : ∀ part bytes, next (part, bytes) = some (build part, bytes))
    (complete : ∀ part value, Sized part →
      (known value ∧ project value = part ↔ value = build part)) :
    Codec known (fun bytes => readField bytes >>= next) (fun value => writeField (project value))
      (fun value => ValidField (project value)) := by
  intro bytes value rest
  simp only [Option.bind_eq_bind, Option.bind_eq_some_iff, Prod.exists, ends, Option.some.injEq,
    Prod.mk.injEq]
  constructor
  · rintro ⟨part, middle, taken, same, rfl⟩
    obtain ⟨rfl, fits, valid⟩ := first.accepts taken
    obtain ⟨holds, rfl⟩ := (complete part value fits).mpr same.symm
    exact ⟨rfl, holds, valid⟩
  · rintro ⟨rfl, holds, valid⟩
    have fits := sized value holds
    have same := (complete _ _ fits).mp ⟨holds, rfl⟩
    exact ⟨project value, rest, first.reads ⟨fits, valid⟩ rest, same.symm, rfl⟩

/-- A last field of its own size. -/
theorem last {readField : Reader β} {writeField : β → List UInt8} {ValidField : β → Prop}
    {next : β × List UInt8 → Option (α × List UInt8)} (project : α → β)
    (first : Whole readField writeField ValidField) {build : β → α}
    (ends : ∀ part bytes, next (part, bytes) = some (build part, bytes))
    (complete : ∀ part value, known value ∧ project value = part ↔ value = build part) :
    Codec known (fun bytes => readField bytes >>= next) (fun value => writeField (project value))
      (fun value => ValidField (project value)) := by
  have free : Whole readField writeField (fun part => True ∧ ValidField part) := by
    simpa only [true_and] using first
  exact lastSized project (fun _ _ => trivial) free ends fun part value _ => complete part value

/-- Validity may be stated in any equivalent form. -/
theorem restate {Valid' : α → Prop} (codec : Codec known read write Valid)
    (same : ∀ value, Valid value ↔ Valid' value) : Codec known read write Valid' := by
  intro bytes value rest
  rw [← same]
  exact codec bytes value rest

/-- A value wrapped as one case of a larger type. -/
theorem Whole.wrapped (codec : Whole read write Valid) {wrap : α → β} {bytes rest : List UInt8}
    {value : β} :
    (read bytes).map (fun p => (wrap p.1, p.2)) = some (value, rest) ↔
      ∃ part, wrap part = value ∧ bytes = write part ++ rest ∧ Valid part := by
  simp only [Option.map_eq_some_iff, Prod.exists, Prod.mk.injEq]
  constructor
  · rintro ⟨part, tail, taken, same, rfl⟩
    exact ⟨part, same, codec.accepts taken⟩
  · rintro ⟨part, same, rfl, valid⟩
    exact ⟨part, rest, codec.reads valid rest, same, rfl⟩

end Codec

end Kynovo.Lib
