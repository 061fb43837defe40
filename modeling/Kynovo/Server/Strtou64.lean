import Mathlib.Data.Nat.Digits.Defs
import Kynovo.Lib.Strtoull
import Kynovo.Server.Command

/-! Reading an unsigned number from text: blanks, a sign, a base prefix, then the
digits, with saturation. A decimal numeral the server prints is read back, and but for a
zero that stands alone every text is read as `strtoull` reads it. -/
namespace Kynovo.Server.Strtou64
open Kynovo.Server.Command
open Kynovo.Lib.Strtoull

def u64Max : Nat := 0xffffffffffffffff

def isBlank (c : UInt8) : Bool :=
  c = 32 || c = 9 || c = 10 || c = 13 || c = 12 || c = 11

/-- The value of a digit or letter. -/
def digitOf (c : UInt8) : Option Nat :=
  if 48 ≤ c ∧ c ≤ 57 then some (c.toNat - 48)
  else if 97 ≤ c ∧ c ≤ 122 then some (c.toNat - 97 + 10)
  else if 65 ≤ c ∧ c ≤ 90 then some (c.toNat - 65 + 10)
  else none

/-- What the digit loop carries. -/
structure Digits where
  value : Nat
  any : Bool
  overflow : Bool
deriving DecidableEq, Repr

/-- One digit; a value that would pass the limit is left as it is. -/
def takeDigit (base : Nat) (state : Digits) (d : Nat) : Digits :=
  if u64Max / base < state.value ∨ (state.value = u64Max / base ∧ u64Max % base < d) then
    { state with any := true, overflow := true }
  else { state with value := state.value * base + d, any := true }

/-- The digits of the base in front, and the text behind them. -/
def digitLoop (base : Nat) (state : Digits) : List UInt8 → Digits × List UInt8
  | [] => (state, [])
  | c :: rest =>
    match digitOf c with
    | none => (state, c :: rest)
    | some d => if base ≤ d then (state, c :: rest) else digitLoop base (takeDigit base state d) rest

def skipSign : List UInt8 → Bool × List UInt8
  | 43 :: rest => (false, rest)
  | 45 :: rest => (true, rest)
  | text => (false, text)

/-- The text behind a hexadecimal prefix. -/
def hexPrefixed : List UInt8 → Option (List UInt8)
  | 48 :: c :: rest => if c = 120 ∨ c = 88 then some rest else none
  | _ => none

/-- The base in use and the text behind its prefix. -/
def chooseBase (base : Nat) (text : List UInt8) : Nat × List UInt8 :=
  if base = 0 then
    match hexPrefixed text with
    | some rest => (16, rest)
    | none =>
      match text with
      | 48 :: rest => (8, rest)
      | _ => (10, text)
  else if base = 16 then
    match hexPrefixed text with
    | some rest => (16, rest)
    | none => (16, text)
  else (base, text)

/-- The number in front of a text, and how many bytes it takes. The text ends at its
terminating zero, so reading beyond the list finds no digit. -/
def kStrtou64 (text : List UInt8) (base : Int) : Nat × Nat :=
  let (neg, p) := skipSign (text.dropWhile isBlank)
  if base < 0 ∨ base = 1 ∨ 36 < base then (0, 0)
  else
    let (base, p) := chooseBase base.toNat p
    let (digits, rest) := digitLoop base ⟨0, false, false⟩ p
    if digits.overflow then (u64Max, text.length - rest.length)
    else if digits.any = false then (0, 0)
    else
      (if neg then (u64Max + 1 - digits.value) % (u64Max + 1) else digits.value,
        text.length - rest.length)

/-! ## Decimal numerals -/

/-- Digits of the base are taken one after another. -/
theorem digitLoop_append {base : Nat} {front : List UInt8}
    (digits : ∀ c ∈ front, ∃ d, digitOf c = some d ∧ d < base) (state : Digits)
    (rest : List UInt8) :
    digitLoop base state (front ++ rest) = digitLoop base (digitLoop base state front).1 rest := by
  induction front generalizing state with
  | nil => rfl
  | cons c front ih =>
    obtain ⟨d, known, small⟩ := digits c List.mem_cons_self
    have here : ∀ tail, digitLoop base state (c :: tail) =
        digitLoop base (takeDigit base state d) tail := by
      intro tail
      rw [digitLoop, known]
      exact if_neg (by omega)
    rw [List.cons_append, here, here]
    exact ih (fun c inside => digits c (List.mem_cons_of_mem _ inside)) _

theorem digit_small : ∀ d < 10,
    digitOf (UInt8.ofNat (Nat.digitChar d).toNat) = some d ∧
      isBlank (UInt8.ofNat (Nat.digitChar d).toNat) = false ∧
      UInt8.ofNat (Nat.digitChar d).toNat ≠ 43 ∧ UInt8.ofNat (Nat.digitChar d).toNat ≠ 45 := by
  decide

theorem decimal_small {n : Nat} (small : n < 10) :
    decimal n = [UInt8.ofNat (Nat.digitChar n).toNat] := by
  rw [decimal, Nat.toDigits_of_lt_base small]
  rfl

theorem decimal_large {n : Nat} (large : 10 ≤ n) :
    decimal n = decimal (n / 10) ++ [UInt8.ofNat (Nat.digitChar (n % 10)).toNat] := by
  rw [decimal, Nat.toDigits_of_base_le (by decide) large, List.map_append]
  rfl

/-- Every byte of a numeral is a decimal digit. -/
theorem decimal_digits (n : Nat) :
    ∀ c ∈ decimal n, (∃ d, digitOf c = some d ∧ d < 10) ∧ isBlank c = false ∧ c ≠ 43 ∧ c ≠ 45 := by
  have each : ∀ d, d < 10 → ∀ c ∈ [UInt8.ofNat (Nat.digitChar d).toNat],
      (∃ d, digitOf c = some d ∧ d < 10) ∧ isBlank c = false ∧ c ≠ 43 ∧ c ≠ 45 := by
    intro d small c inside
    rw [List.mem_singleton.mp inside]
    obtain ⟨known, others⟩ := digit_small _ small
    exact ⟨⟨d, known, small⟩, others⟩
  induction n using Nat.strong_induction_on with
  | _ n ih =>
    by_cases small : n < 10
    · rw [decimal_small small]
      exact each n small
    · rw [decimal_large (by omega)]
      intro c inside
      rcases List.mem_append.mp inside with front | last
      · exact ih (n / 10) (by omega) c front
      · exact each (n % 10) (by omega) c last

theorem digitLoop_decimal {n : Nat} (fits : n ≤ u64Max) :
    digitLoop 10 ⟨0, false, false⟩ (decimal n) = (⟨n, true, false⟩, []) := by
  have single : ∀ (state : Digits) d, d < 10 →
      digitLoop 10 state [UInt8.ofNat (Nat.digitChar d).toNat] = (takeDigit 10 state d, []) := by
    intro state d small
    rw [digitLoop, (digit_small _ small).1]
    dsimp only
    rw [if_neg (by omega)]
    rfl
  induction n using Nat.strong_induction_on with
  | _ n ih =>
    simp only [u64Max] at fits
    by_cases small : n < 10
    · rw [decimal_small small, single _ n small]
      simp [takeDigit, u64Max]
    · have front := ih (n / 10) (by omega) (by simp only [u64Max]; omega)
      rw [decimal_large (by omega), digitLoop_append (fun c inside => (decimal_digits _ c inside).1),
        front, single _ (n % 10) (by omega)]
      -- the last digit still fits, since the whole numeral does
      have room : ¬ (u64Max / 10 < n / 10 ∨ (n / 10 = u64Max / 10 ∧ u64Max % 10 < n % 10)) := by
        simp only [u64Max]
        omega
      simp only [takeDigit, if_neg room, Prod.mk.injEq, Digits.mk.injEq, and_true]
      omega

/-- A numeral is read to its end. -/
theorem kStrtou64_numeral {n : Nat} (fits : n ≤ u64Max) :
    kStrtou64 (decimal n) 10 = (n, (decimal n).length) := by
  have unblanked : (decimal n).dropWhile isBlank = decimal n := by
    cases shape : decimal n with
    | nil => rfl
    | cons c rest =>
      have first := decimal_digits n c (by simp [shape])
      rw [List.dropWhile_cons_of_neg (by simp [first.2.1])]
  have unsigned : skipSign (decimal n) = (false, decimal n) := by
    cases shape : decimal n with
    | nil => rfl
    | cons c rest =>
      have first := decimal_digits n c (by simp [shape])
      unfold skipSign
      split
      · rename_i same
        exact absurd (List.cons.inj same).1 first.2.2.1
      · rename_i same
        exact absurd (List.cons.inj same).1 first.2.2.2
      · rfl
  unfold kStrtou64
  rw [unblanked, unsigned]
  simp [chooseBase, digitLoop_decimal fits]

/-- A number the server prints is read back. -/
theorem kStrtou64_decimal {n : Nat} (fits : n ≤ u64Max) : (kStrtou64 (decimal n) 10).1 = n := by
  rw [kStrtou64_numeral fits]

theorem digitLoop_value {base : Nat} {state : Digits} (bounded : state.value ≤ u64Max)
    (text : List UInt8) : (digitLoop base state text).1.value ≤ u64Max := by
  induction text generalizing state with
  | nil => exact bounded
  | cons c rest ih =>
    unfold digitLoop
    split
    · exact bounded
    · rename_i d known
      split
      · exact bounded
      · apply ih
        unfold takeDigit
        split
        · exact bounded
        · rename_i small room
          have whole := Nat.div_add_mod u64Max base
          have within : state.value ≤ u64Max / base := by omega
          have product := Nat.mul_le_mul_right base within
          rw [Nat.mul_comm (u64Max / base)] at product
          rcases within.lt_or_eq with lower | same
          · have step := Nat.mul_le_mul_right base (Nat.succ_le_of_lt lower)
            rw [Nat.mul_comm (u64Max / base), Nat.succ_mul] at step
            dsimp only
            omega
          · dsimp only
            rw [same, Nat.mul_comm]
            omega

/-- What is read fits 64 bits. -/
theorem kStrtou64_le (text : List UInt8) (base : Int) : (kStrtou64 text base).1 ≤ u64Max := by
  unfold kStrtou64
  dsimp only
  split
  · exact Nat.zero_le _
  · have bounded := fun base text => @digitLoop_value base ⟨0, false, false⟩ (Nat.zero_le _) text
    split
    · exact le_refl _
    · split
      · exact Nat.zero_le _
      · dsimp only
        split
        · exact Nat.le_of_lt_succ (Nat.mod_lt _ (Nat.succ_pos _))
        · exact bounded _ _

/-! ## Against the library function

The two differ where a zero stands alone: the digit loop starts behind the zero of an octal
constant and behind a hexadecimal prefix, and a loop without a digit counts as no number. The
library function takes the zero itself as the number. -/

theorem isBlank_eq_isSpace : isBlank = isSpace := by
  have each : ∀ n : Fin 256, isBlank (UInt8.ofFin n) = isSpace (UInt8.ofFin n) := by decide +kernel
  funext c
  exact each c.toFin

theorem digitOf_eq (c : UInt8) : digitOf c = alphabet.findIdx? (· == lower c) := by
  have each : ∀ n : Fin 256,
      digitOf (UInt8.ofFin n) = alphabet.findIdx? (· == lower (UInt8.ofFin n)) := by
    decide +kernel
  exact each c.toFin

theorem digit_eq (radix : Nat) (c : UInt8) :
    digit radix c = (digitOf c).filter (fun value => value < radix) := by
  rw [digit, digitOf_eq]

theorem hexPrefixed_eq_behindPrefix : hexPrefixed = behindPrefix := rfl

/-- One more digit passes the limit. -/
theorem passes_iff {limit radix value d : Nat} (small : d < radix) :
    (limit / radix < value ∨ (value = limit / radix ∧ limit % radix < d)) ↔ limit < d + radix * value := by
  have whole := Nat.div_add_mod limit radix
  have remainder := Nat.mod_lt limit (Nat.zero_lt_of_lt small)
  rcases Nat.lt_trichotomy value (limit / radix) with below | same | above
  · have step := Nat.mul_le_mul_left radix (Nat.succ_le_of_lt below)
    rw [Nat.mul_succ] at step
    omega
  · rw [same]
    omega
  · have step := Nat.mul_le_mul_left radix (Nat.succ_le_of_lt above)
    rw [Nat.mul_succ] at step
    omega

/-- The loop stands for the magnitude of the digits so far. -/
structure Tracks (magnitude : Nat) (state : Digits) : Prop where
  overflow : state.overflow = true ↔ u64Max < magnitude
  value : state.overflow = false → state.value = magnitude

theorem Tracks.takeDigit {radix magnitude d : Nat} {state : Digits} (tracks : Tracks magnitude state)
    (small : d < radix) : Tracks (d + radix * magnitude) (takeDigit radix state d) := by
  unfold Strtou64.takeDigit
  cases lost : state.overflow with
  | true =>
    have past : u64Max < d + radix * magnitude := by
      have step := Nat.mul_le_mul_right magnitude (Nat.succ_le_of_lt (Nat.zero_lt_of_lt small))
      have before := tracks.overflow.mp lost
      omega
    split
    · exact ⟨⟨fun _ => past, fun _ => rfl⟩, fun kept => Bool.noConfusion kept⟩
    · exact ⟨⟨fun _ => past, fun _ => rfl⟩, fun kept => Bool.noConfusion kept⟩
  | false =>
    have same := tracks.value lost
    have test := @passes_iff u64Max radix magnitude d small
    rw [same]
    split
    · rename_i past
      exact ⟨⟨fun _ => test.mp past, fun _ => rfl⟩, fun kept => Bool.noConfusion kept⟩
    · rename_i fits
      exact ⟨⟨fun set => Bool.noConfusion set, fun past => absurd (test.mpr past) fits⟩,
        fun _ => by rw [Nat.mul_comm magnitude, Nat.add_comm]⟩

/-- The loop takes the digits in front and stops at the first other character. -/
theorem digitLoop_run {radix : Nat} (text : List UInt8) {state : Digits} {values : List Nat}
    (tracks : Tracks (Nat.ofDigits radix values) state) : ∃ run rest found, text = run ++ rest ∧
      digits radix run = some found ∧ (∀ c ∈ rest.head?, digit radix c = none) ∧
      (digitLoop radix state text).2 = rest ∧
      (digitLoop radix state text).1.any = (state.any || !run.isEmpty) ∧
      Tracks (Nat.ofDigits radix (found.reverse ++ values)) (digitLoop radix state text).1 := by
  induction text generalizing state values with
  | nil => exact ⟨[], [], [], rfl, rfl, nofun, rfl, (Bool.or_false _).symm, tracks⟩
  | cons c text ih =>
    cases known : digit radix c with
    | none =>
      have stuck : digitLoop radix state (c :: text) = (state, c :: text) := by
        unfold digitLoop
        split
        · rfl
        · rename_i d shape
          rw [digit_eq, shape, Option.filter_some] at known
          rw [if_pos (by simpa using known)]
      refine ⟨[], c :: text, [], rfl, rfl, ?_, by rw [stuck], by simp [stuck], by rw [stuck]; exact tracks⟩
      intro first here
      cases here
      exact known
    | some d =>
      rw [digit_eq, Option.filter_eq_some_iff, decide_eq_true_eq] at known
      obtain ⟨shape, small⟩ := known
      have moved : digitLoop radix state (c :: text) =
          digitLoop radix (takeDigit radix state d) text := by
        rw [digitLoop, shape]
        exact if_neg (by omega)
      obtain ⟨run, rest, found, rfl, all, stops, left, any, after⟩ :=
        ih (show Tracks (Nat.ofDigits radix (d :: values)) _ by
          rw [Nat.ofDigits_cons]
          exact tracks.takeDigit small)
      refine ⟨c :: run, rest, d :: found, rfl, ?_, stops, by rw [moved, left], ?_, ?_⟩
      · rw [digits_cons, digit_eq, shape, Option.filter_some, if_pos (decide_eq_true small), all]
        rfl
      · rw [moved, any]
        have taken : (takeDigit radix state d).any = true := by
          unfold takeDigit
          split
          · rfl
          · rfl
        simp [taken]
      · rw [moved, List.reverse_cons, List.append_assoc]
        exact after

/-- The text begins with a digit of the radix. -/
def beginsDigit (radix : Nat) (text : List UInt8) : Bool :=
  text.head?.any (fun c => (digitOf c).any (fun d => d < radix))

/-- Behind blanks and sign: a zero that no octal digit follows in base 0, or the zero of a
hexadecimal prefix that no digit follows. -/
def loneZero (base : Nat) (body : List UInt8) : Bool :=
  match hexPrefixed body with
  | some rest => (base = 0 || base = 16) && !beginsDigit 16 rest
  | none => base = 0 && body.head? = some 48 && !beginsDigit 8 body.tail

theorem beginsDigit_of_run {radix : Nat} {run rest : List UInt8} {found : List Nat}
    (all : digits radix run = some found) (stops : ∀ c ∈ rest.head?, digit radix c = none) :
    beginsDigit radix (run ++ rest) = !run.isEmpty := by
  have read : ∀ c, (digitOf c).any (fun d => d < radix) = (digit radix c).isSome := by
    intro c
    rw [digit_eq]
    cases digitOf c with
    | none => rfl
    | some d => by_cases small : d < radix <;> simp [small]
  cases run with
  | nil =>
    cases rest with
    | nil => rfl
    | cons c rest => simp [beginsDigit, read, stops c rfl]
  | cons c run =>
    rw [digits_cons] at all
    cases shape : digit radix c with
    | none => simp [shape] at all
    | some d => simp [beginsDigit, read, shape]

/-- What the library function finds behind blanks and sign, given the digits in front of
`rest` that the loop takes. -/
structure Finds (base : Nat) (body run rest : List UInt8) (value : Nat) : Prop where
  numeral : longest (numeral base) body =
    if run = [] then if loneZero base body then some (0, 1) else none
    else some (value, body.length - rest.length)
  alone : loneZero base body = true → run = []

theorem longest_prefixed {base : Nat} (hex : base = 0 ∨ base = 16) {x : UInt8} (letter : x = 120 ∨ x = 88)
    (rest : List UInt8) : longest (numeral base) (48 :: x :: rest) =
      (match longest (magnitude 16) rest with
      | some (value, length) => some (value, length + 2)
      | none => some (0, 1)) := by
  have behind : (fun front => numeral base (48 :: x :: front)) = magnitude 16 := by
    funext front
    rcases hex with rfl | rfl
    · simp [numeral, behindPrefix, letter]
    · simp [numeral, behindPrefix, letter]
  have zero : numeral base [48] = some 0 := by
    rcases hex with rfl | rfl
    · decide
    · decide
  rw [longest, longest, behind, zero]
  cases longest (magnitude 16) rest with
  | none => rfl
  | some found => rfl

theorem behindPrefix_eq_some {body rest : List UInt8} (prefixed : behindPrefix body = some rest) :
    ∃ x, (x = 120 ∨ x = 88) ∧ body = 48 :: x :: rest := by
  unfold behindPrefix at prefixed
  split at prefixed
  · rename_i x tail
    split at prefixed
    · rename_i letter
      cases prefixed
      exact ⟨x, letter, rfl⟩
    · cases prefixed
  · cases prefixed

theorem behindPrefix_of_front {front body : List UInt8} (within : front <+: body)
    (plain : behindPrefix body = none) : behindPrefix front = none := by
  obtain ⟨tail, rfl⟩ := within
  unfold behindPrefix at plain ⊢
  split
  · split
    · rename_i letter
      simp [letter] at plain
    · rfl
  · rfl

theorem head_of_front {front body : List UInt8} (within : front <+: body) (c : UInt8)
    (first : front.head? = some c) : body.head? = some c := by
  obtain ⟨tail, rfl⟩ := within
  rw [List.head?_append, first]
  rfl

/-- Where every part of the form is a run of digits, the loop takes the same run. -/
theorem finds_plain {base radix : Nat} {run rest : List UInt8} {found : List Nat}
    (all : digits radix run = some found) (stops : ∀ c ∈ rest.head?, digit radix c = none)
    (plain : ∀ front, front <+: run ++ rest → numeral base front = magnitude radix front)
    (filled : loneZero base (run ++ rest) = false) :
    Finds base (run ++ rest) run rest (Nat.ofDigits radix found.reverse) := by
  constructor
  · rw [longest_congr plain, filled, longest_magnitude all stops]
    simp
  · exact fun alone => Bool.noConfusion (filled.symm.trans alone)

/-- Behind a hexadecimal prefix. -/
theorem finds_prefixed {base : Nat} (hex : base = 0 ∨ base = 16) {x : UInt8} (letter : x = 120 ∨ x = 88)
    {run rest : List UInt8} {found : List Nat} (all : digits 16 run = some found)
    (stops : ∀ c ∈ rest.head?, digit 16 c = none) :
    Finds base (48 :: x :: (run ++ rest)) run rest (Nat.ofDigits 16 found.reverse) := by
  have alone : loneZero base (48 :: x :: (run ++ rest)) = run.isEmpty := by
    have behind : hexPrefixed (48 :: x :: (run ++ rest)) = some (run ++ rest) := if_pos letter
    rw [loneZero, behind]
    dsimp only
    rw [beginsDigit_of_run all stops]
    rcases hex with rfl | rfl
    · simp
    · simp
  constructor
  · rw [alone, longest_prefixed hex letter, longest_magnitude all stops]
    by_cases empty : run = []
    · simp [empty]
    · simp only [if_neg empty, List.length_cons, List.length_append, Option.some.injEq, Prod.mk.injEq,
        true_and]
      omega
  · exact fun set => List.isEmpty_iff.mp (alone.symm.trans set)

/-- Behind the zero of an octal constant: the zero is a digit of its own. -/
theorem finds_octal {run rest : List UInt8} {found : List Nat}
    (plain : behindPrefix (48 :: (run ++ rest)) = none) (all : digits 8 run = some found)
    (stops : ∀ c ∈ rest.head?, digit 8 c = none) :
    Finds 0 (48 :: (run ++ rest)) run rest (Nat.ofDigits 8 found.reverse) := by
  have alone : loneZero 0 (48 :: (run ++ rest)) = run.isEmpty := by
    simp [loneZero, hexPrefixed_eq_behindPrefix, plain, beginsDigit_of_run all stops]
  have octal : longest (numeral 0) (48 :: run ++ rest) = longest (magnitude 8) (48 :: run ++ rest) := by
    refine longest_congr fun front within => ?_
    rw [numeral, if_pos rfl, behindPrefix_of_front within plain]
    cases front with
    | nil => rfl
    | cons c front =>
      obtain ⟨more, same⟩ := within
      cases (List.cons.inj same).1
      rfl
  have leading : digits 8 (48 :: run) = some (0 :: found) := by
    have nought : digit 8 48 = some 0 := by decide
    rw [digits_cons, nought, all]
    rfl
  constructor
  · rw [alone, ← List.cons_append, octal, longest_magnitude leading stops, if_neg (List.cons_ne_nil _ _)]
    by_cases empty : run = []
    · subst empty
      cases all
      rfl
    · simp [empty, Nat.ofDigits_append]
      omega
  · exact fun set => List.isEmpty_iff.mp (alone.symm.trans set)

/-- The digits of the chosen base are what the library function reads, unless a zero stands
alone. -/
theorem chooseBase_finds {base : Nat} {body run rest : List UInt8} {found : List Nat}
    (behind : (chooseBase base body).2 = run ++ rest)
    (all : digits (chooseBase base body).1 run = some found)
    (stops : ∀ c ∈ rest.head?, digit (chooseBase base body).1 c = none) :
    Finds base body run rest (Nat.ofDigits (chooseBase base body).1 found.reverse) := by
  have plainly : ∀ radix, chooseBase base body = (radix, body) → loneZero base body = false →
      (∀ front, front <+: body → numeral base front = magnitude radix front) →
      Finds base body run rest (Nat.ofDigits (chooseBase base body).1 found.reverse) := by
    intro radix chosen filled plain
    rw [chosen] at behind all stops ⊢
    dsimp only at behind
    subst behind
    exact finds_plain all stops plain filled
  cases prefixed : behindPrefix body with
  | some tail =>
    obtain ⟨x, letter, rfl⟩ := behindPrefix_eq_some prefixed
    by_cases hex : base = 0 ∨ base = 16
    · have chosen : chooseBase base (48 :: x :: tail) = (16, tail) := by
        rcases hex with rfl | rfl
        · simp [chooseBase, hexPrefixed_eq_behindPrefix, prefixed]
        · simp [chooseBase, hexPrefixed_eq_behindPrefix, prefixed]
      rw [chosen] at behind all stops ⊢
      dsimp only at behind
      subst behind
      exact finds_prefixed hex letter all stops
    · simp only [not_or] at hex
      refine plainly base ?_ ?_ fun front _ => ?_
      · unfold chooseBase
        rw [if_neg hex.1, if_neg hex.2]
      · simp [loneZero, hexPrefixed_eq_behindPrefix, prefixed, hex.1, hex.2]
      · rw [numeral, if_neg hex.1, if_neg hex.2]
  | none =>
    by_cases automatic : base = 0
    · subst automatic
      by_cases zero : body.head? = some 48
      · obtain ⟨tail, rfl⟩ := List.head?_eq_some_iff.mp zero
        have chosen : chooseBase 0 (48 :: tail) = (8, tail) := by
          simp [chooseBase, hexPrefixed_eq_behindPrefix, prefixed]
        rw [chosen] at behind all stops ⊢
        dsimp only at behind
        subst behind
        exact finds_octal prefixed all stops
      · refine plainly 10 ?_ ?_ fun front within => ?_
        · unfold chooseBase
          rw [if_pos rfl, hexPrefixed_eq_behindPrefix, prefixed]
          dsimp only
          split
          · exact absurd rfl zero
          · rfl
        · simp [loneZero, hexPrefixed_eq_behindPrefix, prefixed, zero]
        · rw [numeral, if_pos rfl, behindPrefix_of_front within prefixed]
          exact if_neg (fun first => zero (head_of_front within 48 first))
    · have filled : loneZero base body = false := by
        simp [loneZero, hexPrefixed_eq_behindPrefix, prefixed, automatic]
      by_cases sixteen : base = 16
      · subst sixteen
        refine plainly 16 ?_ filled fun front within => ?_
        · simp [chooseBase, hexPrefixed_eq_behindPrefix, prefixed]
        · rw [numeral, if_neg (by decide), if_pos rfl, behindPrefix_of_front within prefixed]
      · refine plainly base ?_ filled fun front _ => ?_
        · unfold chooseBase
          rw [if_neg automatic, if_neg sixteen]
        · rw [numeral, if_neg automatic, if_neg sixteen]

/-- A sign in front goes with what stands behind it. -/
theorem longest_subject (base : Nat) (body : List UInt8) : longest (subject base) body =
    (longest (numeral base) (skipSign body).2).map (fun found =>
      (((skipSign body).1, found.1), found.2 + (body.length - (skipSign body).2.length))) := by
  have empty : numeral base [] = none := by
    unfold numeral
    split
    · rfl
    · split
      · rfl
      · rfl
  have signed : ∀ (sign : UInt8) (negative : Bool) (rest : List UInt8),
      (∀ front, subject base (sign :: front) = (numeral base front).map (fun value => (negative, value))) →
      longest (subject base) (sign :: rest) = (longest (numeral base) rest).map (fun found =>
        ((negative, found.1), found.2 + 1)) := by
    intro sign negative rest read
    have nothing : subject base [] = none := by simp [subject, empty]
    rw [longest, funext read, longest_map, nothing]
    cases longest (numeral base) rest with
    | none => rfl
    | some found => rfl
  unfold skipSign
  split
  · rename_i rest
    rw [signed 43 false rest (fun _ => rfl)]
    simp
  · rename_i rest
    rw [signed 45 true rest (fun _ => rfl)]
    simp
  · rename_i plus minus
    rw [@longest_congr _ _ (subject base) (fun front => (numeral base front).map (fun value => (false, value)))
      body, longest_map]
    · simp
    · intro front within
      unfold subject
      split
      · obtain ⟨tail, same⟩ := within
        exact absurd same.symm (plus _)
      · obtain ⟨tail, same⟩ := within
        exact absurd same.symm (minus _)
      · rfl

theorem skipSign_length (text : List UInt8) : (skipSign text).2.length ≤ text.length := by
  unfold skipSign
  split
  · exact Nat.le_succ _
  · exact Nat.le_succ _
  · exact le_refl _

theorem chooseBase_length (base : Nat) (body : List UInt8) :
    (chooseBase base body).2.length ≤ body.length := by
  have shorter : ∀ rest, hexPrefixed body = some rest → rest.length ≤ body.length := by
    intro rest prefixed
    obtain ⟨x, -, rfl⟩ := behindPrefix_eq_some prefixed
    simp only [List.length_cons]
    omega
  unfold chooseBase
  split
  · split
    · rename_i rest prefixed
      exact shorter rest prefixed
    · split
      · exact Nat.le_succ _
      · exact le_refl _
  · split
    · split
      · rename_i rest prefixed
        exact shorter rest prefixed
      · exact le_refl _
    · exact le_refl _

/-- Either a zero stands alone, and the library function reads it while the loop does not, or
the two agree. -/
theorem kStrtou64_cases (text : List UInt8) {base : Int} (valid : base = 0 ∨ (2 ≤ base ∧ base ≤ 36)) :
    (loneZero base.toNat (skipSign (text.dropWhile isBlank)).2 = true ∧ kStrtou64 text base = (0, 0) ∧
      (strtoull text base.toNat).1 = 0 ∧ 0 < (strtoull text base.toNat).2) ∨
    (loneZero base.toNat (skipSign (text.dropWhile isBlank)).2 = false ∧
      kStrtou64 text base = strtoull text base.toNat) := by
  unfold kStrtou64 strtoull
  rw [← isBlank_eq_isSpace, longest_subject]
  have blanks : (text.takeWhile isBlank).length + (text.dropWhile isBlank).length = text.length := by
    rw [← List.length_append, List.takeWhile_append_dropWhile]
  have signs := skipSign_length (text.dropWhile isBlank)
  generalize skipSign (text.dropWhile isBlank) = signed at signs ⊢
  obtain ⟨negative, body⟩ := signed
  have shorter := chooseBase_length base.toNat body
  dsimp only at signs ⊢
  rw [if_neg (by omega)]
  have start : Tracks (Nat.ofDigits (chooseBase base.toNat body).1 []) ⟨0, false, false⟩ :=
    ⟨⟨fun set => Bool.noConfusion set, fun past => absurd past (Nat.not_lt_zero _)⟩, fun _ => rfl⟩
  obtain ⟨run, rest, found, behind, all, stops, left, any, after⟩ :=
    digitLoop_run (chooseBase base.toNat body).2 start
  obtain ⟨subject, alone⟩ := chooseBase_finds behind all stops
  rw [List.append_nil] at after
  rw [behind, List.length_append] at shorter
  rw [subject, left]
  generalize digitLoop (chooseBase base.toNat body).1 ⟨0, false, false⟩ (chooseBase base.toNat body).2 =
    looped at any after ⊢
  by_cases empty : run = []
  · subst empty
    cases all
    have none_taken : looped.1.any = false := any
    have small : looped.1.overflow = false := by
      cases lost : looped.1.overflow with
      | false => rfl
      | true => exact absurd (after.overflow.mp lost) (Nat.not_lt_zero _)
    rw [small, none_taken]
    cases loneZero base.toNat body with
    | true =>
      refine .inl ⟨rfl, rfl, ?_, ?_⟩
      · cases negative <;> rfl
      · simp only [Option.map_some, if_true]
        omega
    | false => exact .inr ⟨rfl, rfl⟩
  · have filled : loneZero base.toNat body = false := by
      cases set : loneZero base.toNat body with
      | false => rfl
      | true => exact absurd (alone set) empty
    have taken : looped.1.any = true := by
      rw [any, List.isEmpty_eq_false_iff.mpr empty]
      rfl
    have ends : text.length - rest.length = (text.takeWhile isBlank).length +
        (body.length - rest.length + ((text.dropWhile isBlank).length - body.length)) := by
      omega
    refine .inr ⟨filled, ?_⟩
    rw [if_neg empty, taken, ends]
    unfold convert
    cases lost : looped.1.overflow with
    | true =>
      have past : ullongMax < _ := after.overflow.mp lost
      simp only [Option.map_some, if_pos past, if_true]
      rfl
    | false =>
      have fits : ¬ullongMax < _ := fun past => Bool.noConfusion (lost.symm.trans (after.overflow.mpr past))
      rw [after.value lost]
      simp only [Option.map_some, if_neg fits, Bool.false_eq_true, if_false]
      rfl

/-- The value is that of the library function, saturation and negation included. -/
theorem kStrtou64_value (text : List UInt8) {base : Int} (valid : base = 0 ∨ (2 ≤ base ∧ base ≤ 36)) :
    (kStrtou64 text base).1 = (strtoull text base.toNat).1 := by
  rcases kStrtou64_cases text valid with ⟨-, read, value, -⟩ | ⟨-, same⟩
  · rw [read, value]
  · rw [same]

/-- Value and end pointer are those of the library function unless a zero stands alone: then
the number is taken for none, and the end pointer stays at the start of the text. -/
theorem kStrtou64_eq_strtoull_iff (text : List UInt8) {base : Int}
    (valid : base = 0 ∨ (2 ≤ base ∧ base ≤ 36)) : kStrtou64 text base = strtoull text base.toNat ↔
      loneZero base.toNat (skipSign (text.dropWhile isBlank)).2 = false := by
  rcases kStrtou64_cases text valid with ⟨lone, read, -, further⟩ | ⟨joined, same⟩
  · refine iff_of_false (fun same => ?_) (by simp [lone])
    rw [← same, read] at further
    exact Nat.lt_irrefl 0 further
  · exact iff_of_true same joined

/-- A blank, a prefix and a digit. -/
theorem kStrtou64_prefixed : loneZero 16 (skipSign ([32, 48, 120, 102, 103].dropWhile isBlank)).2 = false ∧
    kStrtou64 [32, 48, 120, 102, 103] 16 = strtoull [32, 48, 120, 102, 103] 16 := by
  have joined : loneZero 16 (skipSign ([32, 48, 120, 102, 103].dropWhile isBlank)).2 = false := by decide
  exact ⟨joined, (kStrtou64_eq_strtoull_iff _ (.inr ⟨by decide, by decide⟩)).mpr joined⟩

/-- A lone zero in base 0, and a prefix without digits in base 0 and in base 16: the library
function's end pointer is behind the zero. -/
theorem kStrtou64_lone_zero :
    kStrtou64 [48] 0 = (0, 0) ∧ strtoull [48] 0 = (0, 1) ∧
      kStrtou64 [48, 120] 0 = (0, 0) ∧ strtoull [48, 120] 0 = (0, 1) ∧
      kStrtou64 [48, 120] 16 = (0, 0) ∧ strtoull [48, 120] 16 = (0, 1) := by
  decide +kernel

end Kynovo.Server.Strtou64
