import Mathlib.Data.List.Basic
import Mathlib.Data.List.TakeDrop

/-! A file is the list of its bytes. Writing places bytes at an offset, filling
a gap with zeros and growing the file when needed; it never shortens it.
Reading succeeds only when the whole range lies inside the file. -/
namespace Kynovo.Lib.FileBytes

/-- The file after `data` has been written at `offset`. -/
def overlay (file : List UInt8) (offset : Nat) (data : List UInt8) : List UInt8 :=
  if data.isEmpty then file
  else file.take offset ++ List.replicate (offset - file.length) 0 ++ data ++
    file.drop (offset + data.length)

/-- The `size` bytes at `offset`, when all of them are there. -/
def readAt (file : List UInt8) (offset size : Nat) : Option (List UInt8) :=
  if offset + size ≤ file.length then some ((file.drop offset).take size) else none

/-- A read that starts behind a known prefix reads what follows it. -/
theorem readAt_append (front back : List UInt8) (size : Nat) :
    readAt (front ++ back) front.length size = readAt back 0 size := by
  simp [readAt]

theorem readAt_append_add (front back : List UInt8) (offset size : Nat) :
    readAt (front ++ back) (front.length + offset) size = readAt back offset size := by
  simp [readAt, Nat.add_assoc, List.drop_append, List.drop_eq_nil_of_le]

theorem readAt_prefix (data rest : List UInt8) :
    readAt (data ++ rest) 0 data.length = some data := by
  simp [readAt]

theorem readAt_none {file : List UInt8} {offset size : Nat} (short : file.length < offset + size) :
    readAt file offset size = none := by
  simp [readAt, Nat.not_le.mpr short]

/-- Writing at the end of `front` replaces the first bytes of what was there
and keeps the rest. -/
theorem overlay_at_end (front old data : List UInt8) :
    overlay (front ++ old) front.length data = front ++ data ++ old.drop data.length := by
  by_cases empty : data = []
  · simp [overlay, empty]
  · simp [overlay, empty, List.drop_append]

theorem overlay_at_start (old data : List UInt8) :
    overlay old 0 data = data ++ old.drop data.length := by
  simpa using overlay_at_end [] old data

/-- What lies behind the written bytes is not touched. -/
theorem overlay_drop (file : List UInt8) (offset : Nat) (data : List UInt8) :
    (overlay file offset data).drop (offset + data.length) = file.drop (offset + data.length) := by
  by_cases empty : data = []
  · simp [overlay, empty]
  · have front : (file.take offset ++ List.replicate (offset - file.length) 0 ++ data).length =
        offset + data.length := by
      simp only [List.length_append, List.length_take, List.length_replicate]
      omega
    rw [overlay, if_neg (by simpa using empty), List.drop_left' front]

theorem take_drop_overlay (file : List UInt8) (offset : Nat) (data : List UInt8) :
    ((overlay file offset data).drop offset).take data.length = data := by
  by_cases empty : data = []
  · simp [empty]
  · have front : (file.take offset ++ List.replicate (offset - file.length) 0).length = offset := by
      simp only [List.length_append, List.length_take, List.length_replicate]
      omega
    rw [overlay, if_neg (by simpa using empty), List.append_assoc, List.drop_left' front,
      List.take_left' rfl]

/-- A write that puts back the bytes that stand there changes nothing, and only
such a write does. -/
theorem overlay_eq_self_iff (file : List UInt8) (offset : Nat) (data : List UInt8) :
    overlay file offset data = file ↔ (file.drop offset).take data.length = data := by
  constructor
  · intro same
    have written := take_drop_overlay file offset data
    rwa [same] at written
  · intro stands
    by_cases empty : data = []
    · simp [overlay, empty]
    · have filled := List.length_pos_of_ne_nil empty
      have size := congrArg List.length stands
      rw [List.length_take, List.length_drop] at size
      have inside : offset + data.length ≤ file.length := by omega
      have gap : offset - file.length = 0 := by omega
      rw [overlay, if_neg (by simpa using empty), gap, List.replicate_zero, List.append_nil]
      calc file.take offset ++ data ++ file.drop (offset + data.length)
          = file.take offset ++ ((file.drop offset).take data.length ++
              (file.drop offset).drop data.length) := by
            rw [stands, List.drop_drop, List.append_assoc]
        _ = file := by rw [List.take_append_drop, List.take_append_drop]

/-- A write into an empty file ends it. -/
theorem overlay_nil_length_le (offset : Nat) (data : List UInt8) :
    (overlay [] offset data).length ≤ offset + data.length := by
  unfold overlay
  split
  · simp
  · simp only [List.take_nil, List.nil_append, List.drop_nil, List.append_nil,
      List.length_append, List.length_replicate, List.length_nil]
    omega

end Kynovo.Lib.FileBytes
