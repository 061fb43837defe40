import Kynovo.Server.Command

/-! What becomes of an admitted write. Every write command the server admits and
encodes is applied, except that two packed sub-formats are not looked at on
admission: the value of a CAS and the bounds of an RSET. -/
namespace Kynovo.Server.Admission
open Kynovo.Lib.LittleEndian
open Kynovo.Wal.Record
open Kynovo.Store.Treap
open Kynovo.Server.Command

/-! ## The reader -/

/-- A bounded field is read exactly from its own encoding. -/
theorem readSized_some_iff {least most : Nat} {bytes data rest : List UInt8}
    (narrow : most < 256 ^ 4) : readSized least most bytes = some (data, rest) ↔
      bytes = sized data ++ rest ∧ least ≤ data.length ∧ data.length ≤ most := by
  constructor
  · intro read
    simp only [readSized, Option.bind_eq_bind, Option.bind_eq_some_iff] at read
    obtain ⟨⟨len, tail⟩, header, body⟩ := read
    obtain ⟨rfl, -⟩ := kReaderUnsigned_some header
    split at body
    · cases body
    · next within =>
      obtain ⟨rfl, rfl⟩ := kReaderBytes_some body
      refine ⟨?_, by omega, by omega⟩
      simp [sized, List.append_assoc]
  · rintro ⟨rfl, low, high⟩
    have header : kReaderU32 (sized data ++ rest) = some (data.length, data ++ rest) := by
      rw [sized, List.append_assoc]
      exact kReaderUnsigned_append (by omega) (data ++ rest)
    have within : ¬(data.length < least ∨ most < data.length) := by omega
    simp [readSized, header, within]

theorem readSized_sized (least most : Nat) {data : List UInt8} (rest : List UInt8)
    (narrow : most < 256 ^ 4) (low : least ≤ data.length) (high : data.length ≤ most) :
    readSized least most (sized data ++ rest) = some (data, rest) :=
  (readSized_some_iff narrow).mpr ⟨rfl, low, high⟩

theorem kReaderU8_op {op : Nat} (small : op < 256) (rest : List UInt8) :
    kReaderU8 (leBytes 1 op ++ rest) = some (op, rest) :=
  kReaderUnsigned_append (by simpa using small) rest

@[simp] theorem atEnd_nil {α : Type} (value : α) : atEnd value [] = some value := rfl

theorem atEnd_some {α : Type} {value result : α} {rest : List UInt8}
    (ends : atEnd value rest = some result) : rest = [] ∧ result = value := by
  unfold atEnd at ends
  split at ends
  · next empty => exact ⟨empty, (Option.some.inj ends).symm⟩
  · cases ends

/-! ## The store accepts what the parsers let through -/

theorem treapSet_of_fits {t : Tree} {key value : List UInt8} (filled : key ≠ [])
    (node : treapNodeBytes key.length ≤ 0xffffffff) (small : value.length ≤ valueMax) :
    ∃ t', treapSet t key value = some t' := by
  have blob : value.length ≤ 0xffffffff := by
    simp only [valueMax] at small
    omega
  exact ⟨putEntry t ⟨key, value, treapHash t.seed key, filled, node, blob⟩, by
    simp [treapSet, treapNodeInit, filled, node, blob]⟩

theorem treapSet_isSome {t : Tree} {key value : List UInt8} (named : 1 ≤ key.length)
    (short : key.length ≤ keyMax) (small : value.length ≤ valueMax) :
    ∃ t', treapSet t key value = some t' := by
  have filled : key ≠ [] := List.ne_nil_of_length_pos named
  have node : treapNodeBytes key.length ≤ 0xffffffff := by
    simp only [treapNodeBytes, keyMax] at *
    omega
  exact treapSet_of_fits filled node small

theorem treapDelete_isSome {t : Tree} {key : List UInt8} (named : 1 ≤ key.length) :
    ∃ result, treapDelete t key = some result := by
  have filled : key ≠ [] := List.ne_nil_of_length_pos named
  unfold treapDelete
  rw [if_neg filled]
  split
  · exact ⟨_, rfl⟩
  · exact ⟨_, rfl⟩

theorem applyItem_isSome (valued : Bool) (fork : Tree) {key value : List UInt8}
    (named : 1 ≤ key.length) (short : key.length ≤ keyMax) (small : value.length ≤ valueMax) :
    ∃ result, applyItem valued fork key value = some result := by
  cases valued with
  | true =>
    obtain ⟨tree, set⟩ := treapSet_isSome (t := fork) named short small
    exact ⟨(tree, true), by simp [applyItem, set]⟩
  | false =>
    obtain ⟨result, deleted⟩ := treapDelete_isSome (t := fork) named
    exact ⟨result, by simp [applyItem, deleted]⟩

theorem readItem_some {valued : Bool} {bytes key value rest : List UInt8}
    (read : readItem valued bytes = some ((key, value), rest)) :
    1 ≤ key.length ∧ key.length ≤ keyMax ∧ value.length ≤ valueMax := by
  simp only [readItem, Option.bind_eq_bind, Option.bind_eq_some_iff] at read
  obtain ⟨⟨k, tail⟩, keyRead, body⟩ := read
  obtain ⟨-, low, high⟩ := (readSized_some_iff (by decide)).mp keyRead
  cases valued with
  | true =>
    simp only [if_true, Option.bind_eq_some_iff, Option.pure_def, Option.some.injEq,
      Prod.mk.injEq] at body
    obtain ⟨⟨v, tail'⟩, valueRead, ⟨rfl, rfl⟩, rfl⟩ := body
    obtain ⟨-, -, small⟩ := (readSized_some_iff (by decide)).mp valueRead
    exact ⟨low, high, small⟩
  | false =>
    simp only [Bool.false_eq_true, if_false, Option.pure_def, Option.some.injEq,
      Prod.mk.injEq] at body
    obtain ⟨⟨rfl, rfl⟩, rfl⟩ := body
    exact ⟨low, high, Nat.zero_le _⟩

/-- A list that the admission walk reads to its end is applied to its end, on
every working copy. -/
theorem applyItems_of_walk {valued : Bool} {count : Nat} {bytes rest : List UInt8}
    (walked : walkItems valued count bytes = some rest) (fork : Tree) (affected : Nat) :
    ∃ fork' affected', applyItems valued count fork affected bytes =
      some (fork', affected', rest) := by
  induction count generalizing bytes fork affected with
  | zero =>
    cases walked
    exact ⟨fork, affected, rfl⟩
  | succ count ih =>
    simp only [walkItems, Option.bind_eq_bind, Option.bind_eq_some_iff] at walked
    obtain ⟨⟨⟨key, value⟩, tail⟩, item, remaining⟩ := walked
    obtain ⟨named, short, small⟩ := readItem_some item
    obtain ⟨⟨next, hit⟩, applied⟩ := applyItem_isSome valued fork named short
      small
    obtain ⟨fork', affected', done⟩ := ih remaining next (if hit then affected + 1 else affected)
    exact ⟨fork', affected', by simp [applyItems, item, applied, done]⟩

/-- The keys a scan collects are read back one by one and all accepted. -/
theorem setPacked_packKeys {value : List UInt8} (small : value.length ≤ valueMax)
    (found : List Entry) (fork : Tree) (affected fuel : Nat)
    (enough : (packKeys found).length ≤ fuel) :
    ∃ result, setPacked value fuel fork affected (packKeys found) = some result := by
  induction found generalizing fork affected fuel with
  | nil => exact ⟨(fork, affected), by simp [packKeys, setPacked]⟩
  | cons entry found ih =>
    have width : entry.key.length < 256 ^ 4 := by
      have fits := entry.keyFits
      simp only [treapNodeBytes] at fits
      omega
    have split : packKeys (entry :: found) =
        leBytes 4 entry.key.length ++ (entry.key ++ packKeys found) := by
      simp [packKeys, sized, List.append_assoc]
    rw [split] at enough ⊢
    simp only [List.length_append, leBytes_length] at enough
    obtain ⟨fuel, rfl⟩ : ∃ left, fuel = left + 1 := ⟨fuel - 1, by omega⟩
    obtain ⟨next, set⟩ := treapSet_of_fits (t := fork) entry.keyed entry.keyFits small
    obtain ⟨result, done⟩ := ih next (affected + 1) fuel (by omega)
    have header := kReaderUnsigned_append width (entry.key ++ packKeys found)
    have first : ∃ head tail, leBytes 4 entry.key.length ++ (entry.key ++ packKeys found) =
        head :: tail := ⟨_, _, rfl⟩
    obtain ⟨head, tail, shape⟩ := first
    refine ⟨result, ?_⟩
    rw [shape, setPacked, ← shape]
    · simp [kReaderU32, header, set, done]
    · exact List.cons_ne_nil head tail

/-! ## The two sub-formats admission does not check -/

/-- A CAS value in one of its two modes. -/
def PackedCas (value : List UInt8) : Prop :=
  ∃ new : List UInt8, new.length ≤ valueMax ∧
    (value = 0 :: sized new ∨
      ∃ old : List UInt8, old.length ≤ valueMax ∧ value = 1 :: (sized new ++ sized old))

/-- The bounds and the new value of an RSET command, as they follow each other in
the log. -/
def PackedRange (bytes first last : List UInt8) : Prop :=
  first.length ≤ keyMax ∧ last.length ≤ keyMax ∧ ∃ value : List UInt8, value.length ≤ valueMax ∧
    bytes = sized first ++ (sized last ++ sized value)

/-- When an admitted request can be applied to a replica: a CAS value is packed
in one of its modes; the bounds of an RSET are packed in front of its value, and
the keys of the range fit one buffer. -/
def Applicable (server : Replica) (request : Request) : Prop :=
  match request.type with
  | .cas => PackedCas request.value
  | .rset => ∃ first last, PackedRange (request.key ++ sized request.value) first last ∧
      (packKeys (treapScan server.tree first last)).length ≤ bufMax
  | _ => True

theorem readSized_last (least most : Nat) {data : List UInt8} (narrow : most < 256 ^ 4)
    (low : least ≤ data.length) (high : data.length ≤ most) :
    readSized least most (sized data) = some (data, []) := by
  simpa using readSized_sized least most [] narrow low high

theorem readCasValue_some_iff (value : List UInt8) :
    (∃ cas, readCasValue value = some cas) ↔ PackedCas value := by
  constructor
  · rintro ⟨cas, read⟩
    simp only [readCasValue, Option.bind_eq_bind, Option.bind_eq_some_iff] at read
    obtain ⟨⟨mode, tail⟩, modeRead, ⟨new, rest⟩, newRead, body⟩ := read
    obtain ⟨rfl, -⟩ := kReaderUnsigned_some modeRead
    obtain ⟨rfl, -, newSmall⟩ := (readSized_some_iff (by decide)).mp newRead
    refine ⟨new, newSmall, ?_⟩
    split at body
    · next compare =>
      simp only [Option.bind_eq_some_iff] at body
      obtain ⟨⟨old, last⟩, oldRead, ends⟩ := body
      obtain ⟨rfl, -, oldSmall⟩ := (readSized_some_iff (by decide)).mp oldRead
      obtain ⟨rfl, -⟩ := atEnd_some ends
      replace compare : mode = 1 := compare
      exact Or.inr ⟨old, oldSmall, by simp [compare, leBytes]⟩
    · split at body
      · next absent =>
        obtain ⟨rfl, -⟩ := atEnd_some body
        replace absent : mode = 0 := absent
        exact Or.inl (by simp [absent, leBytes])
      · cases body
  · rintro ⟨new, newSmall, rfl | ⟨old, oldSmall, rfl⟩⟩
    · have newRead := readSized_last 0 _ (by decide) (Nat.zero_le _) newSmall
      exact ⟨{ new, old := none }, by
        simp [readCasValue, kReaderU8, kReaderUnsigned, kReaderBytes, leNat, newRead]⟩
    · have newRead := readSized_sized 0 _ (sized old) (by decide) (Nat.zero_le _) newSmall
      have oldRead := readSized_last 0 _ (by decide) (Nat.zero_le _) oldSmall
      exact ⟨{ new, old := some old }, by
        simp [readCasValue, kReaderU8, kReaderUnsigned, kReaderBytes, leNat, newRead, oldRead]⟩

theorem readBounds_some_iff {bytes first last rest : List UInt8} :
    readBounds bytes = some ((first, last), rest) ↔
      bytes = sized first ++ (sized last ++ rest) ∧ first.length ≤ keyMax ∧
        last.length ≤ keyMax := by
  constructor
  · intro read
    simp only [readBounds, Option.bind_eq_bind, Option.bind_eq_some_iff, Option.pure_def,
      Option.some.injEq, Prod.mk.injEq] at read
    obtain ⟨⟨low, tail⟩, lowRead, ⟨high, tail'⟩, highRead, ⟨rfl, rfl⟩, rfl⟩ := read
    obtain ⟨rfl, -, lowShort⟩ := (readSized_some_iff (by decide)).mp lowRead
    obtain ⟨rfl, -, highShort⟩ := (readSized_some_iff (by decide)).mp highRead
    exact ⟨rfl, lowShort, highShort⟩
  · rintro ⟨rfl, lowShort, highShort⟩
    have lowRead := readSized_sized 0 _ (sized last ++ rest) (by decide) (Nat.zero_le _)
      lowShort
    have highRead := readSized_sized 0 _ rest (by decide) (Nat.zero_le _) highShort
    simp [readBounds, lowRead, highRead]

/-! ## Apply, command by command -/

theorem applyRangeSet_some_iff (server : Replica) (bytes : List UInt8) :
    (∃ result, applyRangeSet server bytes = some result) ↔
      ∃ first last, PackedRange bytes first last ∧
        (packKeys (treapScan server.tree first last)).length ≤ bufMax := by
  constructor
  · rintro ⟨result, applied⟩
    simp only [applyRangeSet, Option.bind_eq_bind, Option.bind_eq_some_iff] at applied
    obtain ⟨⟨⟨first, last⟩, rest⟩, bounds, ⟨value, tail⟩, valueRead, _, ends, body⟩ := applied
    obtain ⟨rfl, lowShort, highShort⟩ := readBounds_some_iff.mp bounds
    obtain ⟨rfl, -, small⟩ := (readSized_some_iff (by decide)).mp valueRead
    obtain ⟨rfl, -⟩ := atEnd_some ends
    refine ⟨first, last, ⟨lowShort, highShort, value, small, by simp⟩, ?_⟩
    split at body
    · cases body
    · next fits => exact Nat.not_lt.mp fits
  · rintro ⟨first, last, ⟨lowShort, highShort, value, small, rfl⟩, fits⟩
    have bounds := readBounds_some_iff.mpr
      ⟨(rfl : sized first ++ (sized last ++ sized value) = _), lowShort, highShort⟩
    have valueRead := readSized_last 0 _ (by decide) (Nat.zero_le _) small
    obtain ⟨⟨fork, affected⟩, done⟩ := setPacked_packKeys small
      (treapScan server.tree first last) (treapFork server.tree) 0 _ le_rfl
    exact ⟨({ server with tree := treapCommit fork server.tree }, countReply affected), by
      simp [applyRangeSet, bounds, valueRead, Nat.not_lt.mpr fits, done]⟩

theorem applyCas_some_iff (server : Replica) {key value : List UInt8} (named : 1 ≤ key.length)
    (short : key.length ≤ keyMax) (packed : value.length ≤ casPackedMax) :
    (∃ result, applyCas server (sized key ++ sized value) = some result) ↔ PackedCas value := by
  have keyRead := readSized_sized 1 _ (sized value) (by decide) named short
  have valueRead := readSized_last 0 _ (by decide) (Nat.zero_le _) packed
  rw [← readCasValue_some_iff]
  constructor
  · rintro ⟨result, applied⟩
    simp only [applyCas, keyRead, valueRead, Option.bind_eq_bind, Option.bind_some, atEnd_nil,
      Option.bind_eq_some_iff] at applied
    obtain ⟨cas, casRead, -⟩ := applied
    exact ⟨cas, casRead⟩
  · rintro ⟨cas, casRead⟩
    have filled : key ≠ [] := List.ne_nil_of_length_pos named
    have newSmall : cas.new.length ≤ valueMax := by
      simp only [readCasValue, Option.bind_eq_bind, Option.bind_eq_some_iff] at casRead
      obtain ⟨_, -, ⟨new, rest⟩, newRead, body⟩ := casRead
      obtain ⟨-, -, small⟩ := (readSized_some_iff (by decide)).mp newRead
      split at body
      · simp only [Option.bind_eq_some_iff] at body
        obtain ⟨_, -, ends⟩ := body
        obtain ⟨-, rfl⟩ := atEnd_some ends
        exact small
      · split at body
        · obtain ⟨-, rfl⟩ := atEnd_some body
          exact small
        · cases body
    obtain ⟨tree, set⟩ := treapSet_isSome (t := server.tree) named short newSmall
    apply Option.isSome_iff_exists.mp
    by_cases conflict : casConflict cas ((treapFind server.tree.root key).map Entry.value) = true
    · simp [applyCas, keyRead, valueRead, casRead, treapGet, filled, conflict]
    · simp [applyCas, keyRead, valueRead, casRead, treapGet, filled, conflict, set]

theorem applySet_isSome (server : Replica) {key value : List UInt8} (named : 1 ≤ key.length)
    (short : key.length ≤ keyMax) (small : value.length ≤ valueMax) :
    ∃ result, applySet server (sized key ++ sized value) = some result := by
  have keyRead := readSized_sized 1 _ (sized value) (by decide) named short
  have valueRead := readSized_last 0 _ (by decide) (Nat.zero_le _) small
  obtain ⟨tree, set⟩ := treapSet_isSome (t := server.tree) named short small
  exact ⟨({ server with tree }, none), by simp [applySet, keyRead, valueRead, set]⟩

theorem applyDelete_isSome (server : Replica) {key : List UInt8} (named : 1 ≤ key.length)
    (short : key.length ≤ keyMax) : ∃ result, applyDelete server (sized key) = some result := by
  have keyRead := readSized_last 1 _ (by decide) named short
  obtain ⟨⟨tree, hit⟩, deleted⟩ := treapDelete_isSome (t := server.tree) named
  exact ⟨({ server with tree }, none), by simp [applyDelete, keyRead, deleted]⟩

theorem applyRangeDelete_isSome (server : Replica) {first last : List UInt8}
    (lowShort : first.length ≤ keyMax) (highShort : last.length ≤ keyMax) :
    ∃ result, applyRangeDelete server (sized first ++ sized last) = some result := by
  have bounds := readBounds_some_iff.mpr
    ⟨(by simp : sized first ++ sized last = sized first ++ (sized last ++ [])), lowShort, highShort⟩
  apply Option.isSome_iff_exists.mp
  simp [applyRangeDelete, bounds]

theorem applyBatch_isSome (server : Replica) {type : RequestType} {list : List UInt8}
    {request : Request} (admitted : admitBatch type list = some request) :
    request = { type, key := list, value := [] } ∧
      ∃ result, applyBatch server (type = .mset) list = some result := by
  simp only [admitBatch, Option.bind_eq_bind, Option.bind_eq_some_iff] at admitted
  obtain ⟨⟨count, rest⟩, header, body⟩ := admitted
  split at body
  · cases body
  · next within =>
    simp only [Option.bind_eq_some_iff] at body
    obtain ⟨tail, walked, ends⟩ := body
    obtain ⟨rfl, rfl⟩ := atEnd_some ends
    obtain ⟨fork, affected, done⟩ := applyItems_of_walk walked (treapFork server.tree) 0
    have some_items : count ≠ 0 := by omega
    exact ⟨rfl, ({ server with tree := treapCommit fork server.tree }, countReply affected), by
      simp [applyBatch, header, some_items, done]⟩

/-! ## Admitted requests -/

theorem admitPoint_some {type : RequestType} {bytes : List UInt8} {request : Request}
    (admitted : admitPoint type bytes = some request) :
    request.type = type ∧ 1 ≤ request.key.length ∧ request.key.length ≤ keyMax ∧
      request.value.length ≤ if type = .cas then casPackedMax else valueMax := by
  simp only [admitPoint, Option.bind_eq_bind, Option.bind_eq_some_iff] at admitted
  obtain ⟨⟨key, rest⟩, keyRead, body⟩ := admitted
  obtain ⟨-, named, short⟩ := (readSized_some_iff (by decide)).mp keyRead
  have narrow : (if type = .cas then casPackedMax else valueMax) < 256 ^ 4 := by
    split
    · decide
    · decide
  split at body
  · simp only [Option.bind_eq_some_iff] at body
    obtain ⟨⟨value, tail⟩, valueRead, ends⟩ := body
    obtain ⟨-, -, small⟩ := (readSized_some_iff narrow).mp valueRead
    obtain ⟨-, rfl⟩ := atEnd_some ends
    exact ⟨rfl, named, short, small⟩
  · obtain ⟨-, rfl⟩ := atEnd_some body
    exact ⟨rfl, named, short, Nat.zero_le _⟩

theorem admitRangeSet_type {bytes : List UInt8} {request : Request}
    (admitted : admitRangeSet bytes = some request) : request.type = .rset := by
  simp only [admitRangeSet, Option.bind_eq_bind, Option.bind_eq_some_iff] at admitted
  obtain ⟨_, -, _, -, ends⟩ := admitted
  obtain ⟨-, rfl⟩ := atEnd_some ends
  rfl

theorem admitRangeDelete_some {bytes : List UInt8} {request : Request}
    (admitted : admitRangeDelete bytes = some request) :
    request.type = .rdel ∧ request.key.length ≤ keyMax ∧ request.value.length ≤ keyMax := by
  simp only [admitRangeDelete, Option.bind_eq_bind, Option.bind_eq_some_iff] at admitted
  obtain ⟨⟨key, rest⟩, keyRead, ⟨value, tail⟩, valueRead, ends⟩ := admitted
  obtain ⟨-, -, lowShort⟩ := (readSized_some_iff (by decide)).mp keyRead
  obtain ⟨-, -, highShort⟩ := (readSized_some_iff (by decide)).mp valueRead
  obtain ⟨-, rfl⟩ := atEnd_some ends
  exact ⟨rfl, lowShort, highShort⟩

theorem admitFunctionCall_type {bytes : List UInt8} {request : Request}
    (admitted : admitFunctionCall bytes = some request) : request.type = .fcall := by
  simp only [admitFunctionCall, Option.bind_eq_bind, Option.bind_eq_some_iff] at admitted
  obtain ⟨_, -, _, -, ends⟩ := admitted
  obtain ⟨-, rfl⟩ := atEnd_some ends
  rfl

/-- An encoded command is the request's bytes, and its type is a write. -/
theorem submittedCommand_some {request : Request} {command : List UInt8}
    (encoded : submittedCommand request = some command) :
    command = commandBytes request.type request.key request.value ∧
      kRequestIsRead request.type = false ∧ request.type ≠ .fcall := by
  unfold submittedCommand at encoded
  split at encoded
  · cases encoded
  · next write =>
    rw [not_or] at write
    unfold kServerBuildWriteCommand at encoded
    split at encoded
    · cases encoded
    · cases encoded
      exact ⟨rfl, by simpa using write.1, write.2⟩

/-- The dispatch on the operation byte of an encoded request. -/
theorem apply_commandBytes (server : Replica) (type : RequestType) (key value : List UInt8) :
    kServerApplyCommand server (commandBytes type key value) =
      match type with
      | .mset => applyBatch server true key
      | .mdel => applyBatch server false key
      | .rset => applyRangeSet server (key ++ sized value)
      | .rdel => applyRangeDelete server (sized key ++ sized value)
      | .cas => applyCas server (sized key ++ sized value)
      | .set => applySet server (sized key ++ sized value)
      | _ => applyDelete server (sized key) := by
  have dispatch (op : Nat) (small : op < 256) (rest : List UInt8) :=
    kReaderU8_op small rest
  cases type <;>
    simp [commandBytes, kServerApplyCommand, dispatch, opMset, opMdel, opRset, opRdel, opCas,
      opSet, opDel, opFcall, opAddr]

/-- Whatever a client frame may hold: when it is admitted as a write and encoded
into a log command, a replica applies that command exactly when it is applicable
there. -/
theorem admitted_write_applies_iff (server : Replica) {admission : Bool} {type : RequestType}
    {payload command : List UInt8} {request : Request}
    (admitted : kServerClientFrame admission type payload = some request)
    (encoded : submittedCommand request = some command) :
    (∃ result, kServerApplyCommand server command = some result) ↔ Applicable server request := by
  obtain ⟨rfl, write, notCall⟩ := submittedCommand_some encoded
  simp only [kServerClientFrame, Option.bind_eq_bind, Option.bind_eq_some_iff] at admitted
  obtain ⟨⟨requestId, rest⟩, -, body⟩ := admitted
  split at body
  · cases body
  · rw [apply_commandBytes]
    split at body
    · obtain ⟨kind, named, short, small⟩ := admitPoint_some body
      simp only [reduceCtorEq, if_false] at small
      simp only [kind, Applicable, iff_true]
      exact applySet_isSome server named short small
    · obtain ⟨kind, -⟩ := admitPoint_some body
      rw [kind] at write
      cases write
    · obtain ⟨kind, named, short, -⟩ := admitPoint_some body
      simp only [kind, Applicable, iff_true]
      exact applyDelete_isSome server named short
    · obtain ⟨kind, named, short, packed⟩ := admitPoint_some body
      simp only [if_true] at packed
      simp only [kind, Applicable]
      exact applyCas_some_iff server named short packed
    · have kind := admitRangeSet_type body
      simp only [kind, Applicable]
      exact applyRangeSet_some_iff server _
    · obtain ⟨kind, lowShort, highShort⟩ := admitRangeDelete_some body
      simp only [kind, Applicable, iff_true]
      exact applyRangeDelete_isSome server lowShort highShort
    · obtain ⟨rfl, applied⟩ := applyBatch_isSome server body
      simpa only [Applicable, iff_true, decide_true] using applied
    · obtain ⟨rfl, applied⟩ := applyBatch_isSome server body
      simpa only [Applicable, iff_true, reduceCtorEq, decide_false] using applied
    · obtain ⟨rfl, -⟩ := applyBatch_isSome server body
      cases write
    · exact absurd (admitFunctionCall_type body) notCall
    · cases body

/-- A replica with nothing in it. -/
def emptyReplica : Replica where
  tree := treapCreate 0
  cluster := AddressBook.Cluster.empty
  voters := []
  learners := []
  pending := []
  refused := []
  elapsedTotalMs := 0

/-- A CAS frame for the key `k` whose value is the single byte 2, no CAS mode. -/
def badModeFrame : List UInt8 := leBytes 4 7 ++ (sized [107] ++ sized [2])

/-- A frame that sets `k` if it is absent. -/
def setIfAbsentFrame : List UInt8 := leBytes 4 7 ++ (sized [107] ++ sized (0 :: sized [118]))

/-- The frame is admitted and encoded; no replica can apply the command. -/
theorem bad_cas_mode_not_applied :
    kServerClientFrame true .cas badModeFrame = some { type := .cas, key := [107], value := [2] } ∧
      submittedCommand { type := .cas, key := [107], value := [2] } =
        some (commandBytes .cas [107] [2]) ∧
      (kServerApplyCommand emptyReplica (commandBytes .cas [107] [2])).isSome = false := by
  decide +kernel

theorem set_if_absent_applied :
    Applicable emptyReplica { type := .cas, key := [107], value := 0 :: sized [118] } ∧
      ∃ result, kServerApplyCommand emptyReplica (commandBytes .cas [107] (0 :: sized [118])) =
        some result := by
  have packed : Applicable emptyReplica
      { type := .cas, key := [107], value := 0 :: sized [118] } :=
    ⟨[118], by decide, Or.inl rfl⟩
  have admitted : kServerClientFrame true .cas setIfAbsentFrame =
      some { type := .cas, key := [107], value := 0 :: sized [118] } := by decide +kernel
  have encoded : submittedCommand { type := .cas, key := [107], value := 0 :: sized [118] } =
      some (commandBytes .cas [107] (0 :: sized [118])) := by decide +kernel
  exact ⟨packed, (admitted_write_applies_iff emptyReplica admitted encoded).mpr packed⟩

end Kynovo.Server.Admission
