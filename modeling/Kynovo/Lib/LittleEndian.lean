import Mathlib.Data.Nat.ModEq
import Mathlib.Data.Int.Basic
import Mathlib.Tactic.Ring
import Mathlib.Tactic.Linarith

/-! Fixed-width little-endian integers over byte lists: unsigned values as
naturals, signed values as two's complement integers. A width is a number of
bytes. Reading back what was written is the identity on the values the width
can represent, with nothing assumed about the bytes that follow. -/
namespace Kynovo.Lib.LittleEndian

/-- The `width` low bytes of `value`, least significant first. -/
def leBytes : Nat → Nat → List UInt8
  | 0, _ => []
  | width + 1, value => UInt8.ofNat value :: leBytes width (value / 256)

/-- The number a run of little-endian bytes denotes. -/
def leNat : List UInt8 → Nat
  | [] => 0
  | byte :: rest => byte.toNat + 256 * leNat rest

/-- Two's complement of `width` bytes. -/
def leBytesInt (width : Nat) (value : Int) : List UInt8 :=
  leBytes width (value % (256 ^ width : Nat)).toNat

/-- The signed reading of a run of bytes: the upper half of the range is
negative. -/
def leInt (bytes : List UInt8) : Int :=
  if 2 * leNat bytes < 256 ^ bytes.length then (leNat bytes : Int)
  else (leNat bytes : Int) - (256 ^ bytes.length : Nat)

/-- The signed values `width` bytes can hold. -/
def FitsInt (width : Nat) (value : Int) : Prop :=
  -(256 ^ width : Nat) ≤ 2 * value ∧ 2 * value < (256 ^ width : Nat)

instance (width : Nat) (value : Int) : Decidable (FitsInt width value) :=
  inferInstanceAs (Decidable (_ ∧ _))

@[simp] theorem leBytes_length (width value : Nat) : (leBytes width value).length = width := by
  induction width generalizing value with
  | zero => rfl
  | succ width ih => simp [leBytes, ih]

@[simp] theorem leBytesInt_length (width : Nat) (value : Int) :
    (leBytesInt width value).length = width := by
  simp [leBytesInt]

theorem leNat_leBytes (width value : Nat) : leNat (leBytes width value) = value % 256 ^ width := by
  induction width generalizing value with
  | zero => simp [leBytes, leNat, Nat.mod_one]
  | succ width ih =>
    have split := @Nat.mod_mul 256 (256 ^ width) value
    rw [leBytes, leNat, ih, UInt8.toNat_ofNat', pow_succ' 256 width, split]

theorem leNat_leBytes_of_lt {width value : Nat} (fits : value < 256 ^ width) :
    leNat (leBytes width value) = value := by
  rw [leNat_leBytes, Nat.mod_eq_of_lt fits]

theorem leInt_leBytesInt {width : Nat} {value : Int} (fits : FitsInt width value) :
    leInt (leBytesInt width value) = value := by
  obtain ⟨low, high⟩ := fits
  have modulus : (0 : Int) < (256 ^ width : Nat) := by positivity
  have nonneg : 0 ≤ value % (256 ^ width : Nat) := Int.emod_nonneg _ (ne_of_gt modulus)
  have below : value % (256 ^ width : Nat) < (256 ^ width : Nat) := Int.emod_lt_of_pos _ modulus
  have bits : leNat (leBytesInt width value) = (value % (256 ^ width : Nat)).toNat := by
    apply leNat_leBytes_of_lt
    omega
  simp only [leInt, bits, leBytesInt_length]
  by_cases sign : 0 ≤ value
  · have same : value % (256 ^ width : Nat) = value := Int.emod_eq_of_lt sign (by omega)
    rw [same, if_pos (by omega)]
    omega
  · have shifted : value % (256 ^ width : Nat) = value + (256 ^ width : Nat) := by
      rw [← Int.add_emod_right]
      exact Int.emod_eq_of_lt (by omega) (by omega)
    rw [shifted, if_neg (by omega)]
    omega

theorem leNat_lt (bytes : List UInt8) : leNat bytes < 256 ^ bytes.length := by
  induction bytes with
  | nil => simp [leNat]
  | cons byte rest ih =>
    have low := byte.toNat_lt
    rw [leNat, List.length_cons, pow_succ']
    omega

/-- Writing back what was read gives the same bytes. -/
theorem leBytes_leNat (bytes : List UInt8) : leBytes bytes.length (leNat bytes) = bytes := by
  induction bytes with
  | nil => rfl
  | cons byte rest ih =>
    have low := byte.toNat_lt
    have quotient : (byte.toNat + 256 * leNat rest) / 256 = leNat rest := by omega
    have remainder : UInt8.ofNat (byte.toNat + 256 * leNat rest) = byte := by
      apply UInt8.toNat_inj.mp
      rw [UInt8.toNat_ofNat']
      omega
    rw [List.length_cons, leNat, leBytes, quotient, ih, remainder]

theorem leInt_fits (bytes : List UInt8) : FitsInt bytes.length (leInt bytes) := by
  have bound := leNat_lt bytes
  unfold FitsInt leInt
  constructor <;> split <;> omega

/-- The same for signed values. -/
theorem leBytesInt_leInt (bytes : List UInt8) : leBytesInt bytes.length (leInt bytes) = bytes := by
  have bound := leNat_lt bytes
  have bits : (leInt bytes % (256 ^ bytes.length : Nat)).toNat = leNat bytes := by
    unfold leInt
    split
    · rw [Int.emod_eq_of_lt (by omega) (by omega)]
      rfl
    · rw [Int.sub_emod_right, Int.emod_eq_of_lt (by omega) (by omega)]
      rfl
  rw [leBytesInt, bits, leBytes_leNat]

end Kynovo.Lib.LittleEndian
