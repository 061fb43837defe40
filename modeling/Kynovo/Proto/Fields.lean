import Kynovo.Lib.Codec
import Kynovo.Wal.Record

/-! The fields of wire payloads: each reader of the shared buffer code accepts
exactly the encodings of the values its C type can hold. -/
namespace Kynovo.Proto.Fields
open Kynovo.Lib
open Kynovo.Lib.LittleEndian
open Kynovo.Wal.Record

def kReaderU16 : Reader Nat := kReaderUnsigned 2
def kReaderU64 : Reader Nat := kReaderUnsigned 8

/-- A flag is one byte on the wire and an `int` in memory. -/
def kReaderFlag (bytes : List UInt8) : Option (Int × List UInt8) := do
  let (flag, rest) ← kReaderU8 bytes
  return ((flag : Int), rest)

def IsFlag (flag : Int) : Prop := 0 ≤ flag ∧ flag < 256

def IsMask (ids : List Int) : Prop := ids.length ≤ maxNodes ∧ ∀ id ∈ ids, FitsInt 4 id

theorem unsigned_codec (width : Nat) :
    Codec.Whole (kReaderUnsigned width) (leBytes width) (fun value => value < 256 ^ width) := by
  intro bytes value rest
  constructor
  · intro accepted
    obtain ⟨split, fits⟩ := kReaderUnsigned_some accepted
    exact ⟨split, trivial, fits⟩
  · rintro ⟨rfl, -, fits⟩
    exact kReaderUnsigned_append fits rest

theorem signed_codec (width : Nat) :
    Codec.Whole (kReaderSigned width) (leBytesInt width) (FitsInt width) := by
  intro bytes value rest
  constructor
  · intro accepted
    simp only [kReaderSigned, Option.bind_eq_bind, Option.bind_eq_some_iff, Option.pure_def,
      Option.some.injEq, Prod.mk.injEq] at accepted
    obtain ⟨⟨raw, tail⟩, taken, rfl, rfl⟩ := accepted
    obtain ⟨rfl, rfl⟩ := kReaderBytes_some taken
    exact ⟨by rw [leBytesInt_leInt], trivial, leInt_fits raw⟩
  · rintro ⟨rfl, -, fits⟩
    exact kReaderSigned_append fits rest

theorem flag_codec :
    Codec.Whole kReaderFlag (fun flag => leBytes 1 flag.toNat) IsFlag := by
  intro bytes flag rest
  simp only [kReaderFlag, Option.bind_eq_bind, Option.bind_eq_some_iff, Option.pure_def,
    Option.some.injEq, Prod.mk.injEq, Prod.exists, IsFlag]
  constructor
  · rintro ⟨value, tail, taken, rfl, rfl⟩
    obtain ⟨rfl, fits⟩ := kReaderUnsigned_some taken
    exact ⟨by simp, trivial, by omega, by omega⟩
  · rintro ⟨rfl, -, low, high⟩
    refine ⟨flag.toNat, rest, kReaderUnsigned_append (by omega) rest, by omega, rfl⟩

theorem readIds_codec (count : Nat) :
    Codec.Whole (readIds count) (fun ids => ids.flatMap (leBytesInt 4))
      (fun ids => ids.length = count ∧ ∀ id ∈ ids, FitsInt 4 id) := by
  intro bytes ids rest
  constructor
  · induction count generalizing bytes ids with
    | zero =>
      intro accepted
      cases accepted
      simp
    | succ count ih =>
      intro accepted
      simp only [readIds, Option.bind_eq_bind, Option.bind_eq_some_iff, Option.pure_def,
        Option.some.injEq, Prod.mk.injEq, Prod.exists] at accepted
      obtain ⟨id, middle, taken, others, tail, following, rfl, rfl⟩ := accepted
      obtain ⟨rfl, fits⟩ := (signed_codec 4).accepts taken
      obtain ⟨rfl, -, length, othersFit⟩ := ih _ _ following
      refine ⟨by simp, trivial, by simp [length], ?_⟩
      intro other member
      rcases List.mem_cons.mp member with rfl | member
      · exact fits
      · exact othersFit other member
  · rintro ⟨rfl, -, rfl, fits⟩
    exact readIds_append fits rest

theorem mask_codec : Codec.Whole kReaderMask kBufMask IsMask := by
  intro bytes ids rest
  constructor
  · intro accepted
    simp only [kReaderMask, Option.bind_eq_bind, Option.bind_eq_some_iff, Prod.exists] at accepted
    obtain ⟨count, middle, taken, following⟩ := accepted
    obtain ⟨rfl, -⟩ := kReaderUnsigned_some taken
    split at following
    · cases following
    · obtain ⟨rfl, length, fits⟩ := (readIds_codec count).accepts following
      refine ⟨?_, trivial, by omega, fits⟩
      rw [kBufMask, length, List.append_assoc]
  · rintro ⟨rfl, -, few, fits⟩
    exact kReaderMask_append few fits rest

theorem bytes_codec (size : Nat) :
    Codec.Whole (kReaderBytes size) (fun data => data)
      (fun data => data.length = size ∧ True) := by
  intro bytes data rest
  constructor
  · intro accepted
    obtain ⟨split, length⟩ := kReaderBytes_some accepted
    exact ⟨split, trivial, length, trivial⟩
  · rintro ⟨rfl, -, rfl, -⟩
    exact kReaderBytes_append data rest

end Kynovo.Proto.Fields
