import Mathlib.Data.List.Infix
import Mathlib.Data.Nat.Digits.Defs

/-! The library function `strtoull` as C99 states it. Behind the white space stands the
subject: the longest initial part of the text that has the expected form. Its value is the
result, its end is the end pointer, and without a subject the end pointer is the start of
the text. -/
namespace Kynovo.Lib.Strtoull

/-! ## The longest initial part of a form -/

section Longest
variable {α β γ : Type}

/-- The value and the length of the longest initial part that has the form. -/
def longest (form : List α → Option β) : List α → Option (β × Nat)
  | [] => (form []).map (fun value => (value, 0))
  | c :: rest =>
    match longest (fun front => form (c :: front)) rest with
    | some (value, length) => some (value, length + 1)
    | none => (form []).map (fun value => (value, 0))

theorem longest_eq_none_iff {form : List α → Option β} {text : List α} :
    longest form text = none ↔ ∀ front, front <+: text → form front = none := by
  induction text generalizing form with
  | nil => simp [longest]
  | cons c rest ih =>
    have behind := @ih (fun front => form (c :: front))
    unfold longest
    constructor
    · intro nothing front within
      split at nothing
      · cases nothing
      · rename_i none_behind
        rcases List.prefix_cons_iff.mp within with rfl | ⟨tail, rfl, inside⟩
        · exact Option.map_eq_none_iff.mp nothing
        · exact behind.mp none_behind tail inside
    · intro never
      rw [behind.mpr (fun front inside => never _ (List.prefix_cons_iff.mpr (.inr ⟨front, rfl, inside⟩)))]
      simp [never [] (List.nil_prefix)]

/-- No longer initial part has the form. -/
theorem longest_eq_some_iff {form : List α → Option β} {text : List α} {value : β} {length : Nat} :
    longest form text = some (value, length) ↔ ∃ front, front <+: text ∧ front.length = length ∧
      form front = some value ∧ ∀ more, more <+: text → length < more.length → form more = none := by
  induction text generalizing form length with
  | nil =>
    simp only [longest, Option.map_eq_some_iff, Prod.mk.injEq, List.prefix_nil]
    constructor
    · rintro ⟨found, formed, rfl, rfl⟩
      exact ⟨[], rfl, rfl, formed, fun more empty long => by simp [empty] at long⟩
    · rintro ⟨front, rfl, rfl, formed, -⟩
      exact ⟨value, formed, rfl, rfl⟩
  | cons c rest ih =>
    unfold longest
    constructor
    · intro found
      split at found
      · rename_i inner count shape
        cases found
        obtain ⟨front, within, rfl, formed, most⟩ := ih.mp shape
        refine ⟨c :: front, List.prefix_cons_iff.mpr (.inr ⟨front, rfl, within⟩), rfl, formed, ?_⟩
        intro more inside long
        rcases List.prefix_cons_iff.mp inside with rfl | ⟨tail, rfl, below⟩
        · exact absurd long (Nat.not_lt_zero _)
        · exact most tail below (Nat.lt_of_succ_lt_succ long)
      · rename_i none_behind
        obtain ⟨inner, formed, same⟩ := Option.map_eq_some_iff.mp found
        cases same
        refine ⟨[], List.nil_prefix, rfl, formed, ?_⟩
        intro more inside long
        rcases List.prefix_cons_iff.mp inside with rfl | ⟨tail, rfl, below⟩
        · exact absurd long (Nat.lt_irrefl 0)
        · exact longest_eq_none_iff.mp none_behind tail below
    · rintro ⟨front, within, rfl, formed, most⟩
      rcases List.prefix_cons_iff.mp within with rfl | ⟨tail, rfl, inside⟩
      · have none_behind : longest (fun front => form (c :: front)) rest = none :=
          longest_eq_none_iff.mpr (fun front inside =>
            most _ (List.prefix_cons_iff.mpr (.inr ⟨front, rfl, inside⟩)) (Nat.succ_pos _))
        rw [none_behind, formed]
        rfl
      · have behind : longest (fun front => form (c :: front)) rest = some (value, tail.length) := by
          refine ih.mpr ⟨tail, inside, rfl, formed, fun more within long => ?_⟩
          exact most _ (List.prefix_cons_iff.mpr (.inr ⟨more, rfl, within⟩)) (Nat.succ_lt_succ long)
        rw [behind]
        rfl

/-- Only the initial parts of the text matter. -/
theorem longest_congr {form form' : List α → Option β} {text : List α}
    (same : ∀ front, front <+: text → form front = form' front) :
    longest form text = longest form' text := by
  induction text generalizing form form' with
  | nil => simp [longest, same [] List.nil_prefix]
  | cons c rest ih =>
    unfold longest
    rw [ih (fun front inside => same _ (List.prefix_cons_iff.mpr (.inr ⟨front, rfl, inside⟩))),
      same [] List.nil_prefix]

theorem longest_map (form : List α → Option β) (read : β → γ) (text : List α) :
    longest (fun front => (form front).map read) text =
      (longest form text).map (fun found => (read found.1, found.2)) := by
  induction text generalizing form with
  | nil => cases shape : form [] <;> simp [longest, shape]
  | cons c rest ih =>
    unfold longest
    rw [ih]
    cases longest (fun front => form (c :: front)) rest with
    | none => cases form [] <;> rfl
    | some found => rfl

end Longest

/-! ## The expected forms -/

/-- White space in the "C" locale. -/
def isSpace (c : UInt8) : Bool := c = 32 || (9 ≤ c && c ≤ 13)

/-- The digits and the small letters, in the order of their values. -/
def alphabet : List UInt8 :=
  [48, 49, 50, 51, 52, 53, 54, 55, 56, 57, 97, 98, 99, 100, 101, 102, 103, 104, 105, 106, 107, 108, 109,
    110, 111, 112, 113, 114, 115, 116, 117, 118, 119, 120, 121, 122]

def lower (c : UInt8) : UInt8 := if 65 ≤ c ∧ c ≤ 90 then c + 32 else c

/-- The digit of the radix that a character stands for. -/
def digit (radix : Nat) (c : UInt8) : Option Nat :=
  (alphabet.findIdx? (· == lower c)).filter (fun value => value < radix)

def digits (radix : Nat) (body : List UInt8) : Option (List Nat) := body.mapM (digit radix)

/-- One digit or more, the most significant first. -/
def magnitude (radix : Nat) (body : List UInt8) : Option Nat :=
  if body = [] then none
  else (digits radix body).map (fun values => Nat.ofDigits radix values.reverse)

/-- The text behind a hexadecimal prefix. -/
def behindPrefix : List UInt8 → Option (List UInt8)
  | 48 :: x :: rest => if x = 120 ∨ x = 88 then some rest else none
  | _ => none

/-- Without a sign: in base 0 an integer constant, which is hexadecimal with the prefix, octal
with a zero in front, and else decimal; in base 16 the prefix may stand in front. -/
def numeral (base : Nat) (body : List UInt8) : Option Nat :=
  if base = 0 then
    match behindPrefix body with
    | some rest => magnitude 16 rest
    | none => if body.head? = some 48 then magnitude 8 body else magnitude 10 body
  else if base = 16 then
    match behindPrefix body with
    | some rest => magnitude 16 rest
    | none => magnitude 16 body
  else magnitude base body

/-- Whether a minus sign stands in front, and the magnitude. -/
def subject (base : Nat) : List UInt8 → Option (Bool × Nat)
  | 43 :: body => (numeral base body).map (fun value => (false, value))
  | 45 :: body => (numeral base body).map (fun value => (true, value))
  | body => (numeral base body).map (fun value => (false, value))

def ullongMax : Nat := 18446744073709551615

/-- A magnitude out of range gives the greatest value, and a minus sign negates in the result
type. -/
def convert (negative : Bool) (value : Nat) : Nat :=
  if ullongMax < value then ullongMax
  else if negative then (ullongMax + 1 - value) % (ullongMax + 1)
  else value

/-- The value and the offset of the end pointer, for base 0 or from 2 to 36. -/
def strtoull (text : List UInt8) (base : Nat) : Nat × Nat :=
  match longest (subject base) (text.dropWhile isSpace) with
  | none => (0, 0)
  | some ((negative, value), length) =>
    (convert negative value, (text.takeWhile isSpace).length + length)

/-! ## Runs of digits -/

theorem digits_cons (radix : Nat) (c : UInt8) (rest : List UInt8) :
    digits radix (c :: rest) = (digit radix c).bind (fun value => (digits radix rest).map (value :: ·)) := by
  unfold digits
  rw [List.mapM_cons]
  cases digit radix c with
  | none => rfl
  | some value => cases rest.mapM (digit radix) <;> rfl

theorem digits_append_none {radix : Nat} {c : UInt8} (stop : digit radix c = none)
    (front rest : List UInt8) : digits radix (front ++ c :: rest) = none := by
  induction front with
  | nil => simp [digits_cons, stop]
  | cons first front ih =>
    rw [List.cons_append, digits_cons, ih]
    cases digit radix first <;> rfl

/-- A run of digits that cannot go on is the longest magnitude. -/
theorem longest_magnitude {radix : Nat} {run rest : List UInt8} {values : List Nat}
    (all : digits radix run = some values) (stops : ∀ c ∈ rest.head?, digit radix c = none) :
    longest (magnitude radix) (run ++ rest) =
      if run = [] then none else some (Nat.ofDigits radix values.reverse, run.length) := by
  have beyond : ∀ more, more <+: run ++ rest → run.length < more.length → magnitude radix more = none := by
    intro more within long
    obtain ⟨extra, rfl⟩ : run <+: more :=
      List.prefix_of_prefix_length_le (List.prefix_append run rest) within long.le
    cases extra with
    | nil => simp at long
    | cons c extra =>
      have next : c ∈ rest.head? := by
        obtain ⟨tail, same⟩ := within
        rw [List.append_assoc, List.append_cancel_left_eq] at same
        rw [← same]
        rfl
      unfold magnitude
      rw [digits_append_none (stops c next) run extra]
      split <;> rfl
  split
  · rename_i empty
    subst empty
    refine longest_eq_none_iff.mpr (fun front within => ?_)
    cases front with
    | nil => rfl
    | cons c front => exact beyond _ within (Nat.succ_pos _)
  · rename_i filled
    refine longest_eq_some_iff.mpr ⟨run, List.prefix_append run rest, rfl, ?_, beyond⟩
    unfold magnitude
    rw [if_neg filled, all]
    rfl

end Kynovo.Lib.Strtoull
