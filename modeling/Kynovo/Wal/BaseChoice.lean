import Mathlib.Data.Finset.Max
import Mathlib.Data.List.DropRight
import Kynovo.Wal.Retention

/-! The snapshot a load starts from. While the records stream by, the walk keeps
two bases, the newest and the distinct one before it, and remembers where each was
carried. The load then takes one of the two whose snapshot file verifies and decodes
the remembered record once more for its header. -/
namespace Kynovo.Wal.BaseChoice
open Kynovo.Lib.LittleEndian
open Kynovo.Wal.Record
open Kynovo.Wal.Append
open Kynovo.Wal.Recovery
open Kynovo.Wal.ScanProofs
open Kynovo.Wal.Retention

/-- The base in use and the view with its header, or why there is none. -/
def settleBase (disk : Disk) (scan : Scan) : Except Refusal (Int × Restore) :=
  match pickBase disk scan with
  | .error refusal => .error refusal
  | .ok (base, place) =>
    match readBase disk scan base place with
    | .error refusal => .error refusal
    | .ok restore =>
      if restore.lastIncludedIndex ≠ base then .error (.baseMismatch base) else .ok (base, restore)

/-- The records at the end that all carry the newest base. -/
def lastRun (records : List WalRecord) : List WalRecord :=
  records.rtakeWhile (fun record => record.lastIncludedIndex = newestBase records)

/-- The records in front of them, the last of which carries another base. -/
def beforeRun (records : List WalRecord) : List WalRecord :=
  records.rdropWhile (fun record => record.lastIncludedIndex = newestBase records)

/-- The distinct base before the newest, zero where there is none. -/
def prevBase (records : List WalRecord) : Int := newestBase (beforeRun records)

theorem lastRun_same {records : List WalRecord} {record : WalRecord}
    (same : newestBase records = record.lastIncludedIndex) :
    lastRun (records ++ [record]) = lastRun records ++ [record] ∧
      beforeRun (records ++ [record]) = beforeRun records := by
  unfold lastRun beforeRun
  rw [newestBase_snoc, ← same, List.rtakeWhile_concat_pos _ _ _ (by simp [same]),
    List.rdropWhile_concat_pos _ _ _ (by simp [same])]
  exact ⟨rfl, rfl⟩

theorem lastRun_new {records : List WalRecord} {record : WalRecord}
    (other : newestBase records ≠ record.lastIncludedIndex) :
    lastRun (records ++ [record]) = [record] ∧ beforeRun (records ++ [record]) = records := by
  have ends : ∀ some : records ≠ [],
      (records.getLast some).lastIncludedIndex ≠ record.lastIncludedIndex := by
    intro some same
    apply other
    rw [newestBase, List.getLast?_eq_getLast_of_ne_nil some, ← same]
    rfl
  unfold lastRun beforeRun
  rw [newestBase_snoc, List.rtakeWhile_concat_pos _ _ _ (by simp),
    List.rdropWhile_concat_pos _ _ _ (by simp), List.rtakeWhile_eq_nil_iff.mpr (by simpa using ends),
    List.rdropWhile_eq_self_iff.mpr (by simpa using ends)]
  exact ⟨rfl, rfl⟩

/-- A record named by the walk lies at a place. -/
def Carried (disk : Disk) (found : Option WalRecord) (place : Place) : Prop :=
  ∃ record, found = some record ∧ HoldsAt disk place record

/-- The log the records leave: each of their entries is put as it is read. -/
def replay (records : List WalRecord) : List PersistEntry :=
  records.foldl (fun log record => record.entries.foldl (kRestorePutEntry 0) log) []

theorem replay_snoc (records : List WalRecord) (record : WalRecord) :
    replay (records ++ [record]) =
      record.entries.foldl (kRestorePutEntry 0) (replay records) := by
  simp [replay]

/-- What the variables of the walk say about the records read. -/
structure Trails (disk : Disk) (records : List WalRecord) (scan : Scan) : Prop where
  count : scan.records = records.length
  unread : records = [] → scan.newest = Place.zero
  entries : scan.restore.entries = replay records
  header : scan.restore.lastIncludedIndex = 0
  newest : scan.newestBase = newestBase records
  prev : scan.prevBase = prevBase records
  still : scan.newestBase = scan.prevBase →
    scan.newestBase = 0 ∧ ∀ record ∈ records, record.lastIncludedIndex = 0
  baseRecord : scan.newestBase ≠ scan.prevBase →
    Carried disk (lastRun records).head? scan.baseRecord
  baseNewest : records ≠ [] → Carried disk records.getLast? scan.baseNewest
  baseBefore : scan.prevBase ≠ 0 → Carried disk (beforeRun records).getLast? scan.baseBefore

theorem Trails.start (disk : Disk) : Trails disk [] Scan.start where
  count := rfl
  unread := fun _ => rfl
  entries := rfl
  header := rfl
  newest := rfl
  prev := rfl
  still := fun _ => ⟨rfl, by simp⟩
  baseRecord := fun other => absurd rfl other
  baseNewest := fun other => absurd rfl other
  baseBefore := fun other => absurd rfl other

/-- What one record does to the base variables. -/
theorem taken_bases {record : WalRecord} (writable : record.Writable) (scan : Scan) (place : Place)
    (generation : Nat) :
    (taken scan place generation record).baseNewest = place ∧
      (taken scan place generation record).baseBefore =
        if scan.newestBase = record.lastIncludedIndex then scan.baseBefore else scan.baseNewest := by
  obtain ⟨long, base⟩ := recordBytes_base writable
  unfold taken Scan.noteBase
  by_cases same : scan.newestBase = record.lastIncludedIndex
  · rw [if_neg (by simp [base, same]), if_pos same]
    exact ⟨rfl, rfl⟩
  · rw [if_pos ⟨long, by rw [base]; exact same⟩, if_neg same]
    exact ⟨rfl, rfl⟩

theorem taken_view (scan : Scan) (place : Place) (generation : Nat) (record : WalRecord) :
    (taken scan place generation record).restore.lastIncludedIndex =
        scan.restore.lastIncludedIndex ∧
      (taken scan place generation record).restore.entries =
        record.entries.foldl (kRestorePutEntry 0) scan.restore.entries := by
  rw [taken_restore]
  refine ⟨?_, rfl⟩
  simp only [decoded, adoptHeader, adoptTermVote]
  split
  · rfl
  · split <;> rfl

theorem Trails.step {disk : Disk} {records : List WalRecord} {record : WalRecord} {scan : Scan}
    {place : Place} (trails : Trails disk records scan) (holds : HoldsAt disk place record)
    (generation : Nat) :
    Trails disk (records ++ [record]) (taken scan place generation record) := by
  obtain ⟨base, keeps, changes⟩ := taken_base holds.writable scan place generation
  obtain ⟨newest, before⟩ := taken_bases holds.writable scan place generation
  obtain ⟨header, entries⟩ := taken_view scan place generation record
  have last : Carried disk (records ++ [record]).getLast? place := ⟨record, by simp, holds⟩
  have count : (taken scan place generation record).records = (records ++ [record]).length := by
    rw [taken_records, trails.count, List.length_append, List.length_singleton]
  have log : (taken scan place generation record).restore.entries =
      replay (records ++ [record]) := by
    rw [entries, trails.entries, replay_snoc]
  rw [trails.newest] at keeps changes before
  by_cases same : newestBase records = record.lastIncludedIndex
  · obtain ⟨prev, kept⟩ := keeps same
    obtain ⟨run, front⟩ := lastRun_same same
    rw [if_pos same] at before
    refine ⟨count, by simp, log, header.trans trails.header, ?_, ?_, ?_, ?_, ?_, ?_⟩
    · rw [base, newestBase_snoc]
    · rw [prev, trails.prev, prevBase, prevBase, front]
    · rw [base, prev, ← same, ← trails.newest]
      intro equal
      obtain ⟨zero, all⟩ := trails.still equal
      refine ⟨zero, fun other member => ?_⟩
      rcases List.mem_append.mp member with old | new
      · exact all other old
      · rw [List.mem_singleton.mp new, ← same, ← trails.newest, zero]
    · rw [base, prev, kept, run, ← same, ← trails.newest]
      intro other
      obtain ⟨found, first, there⟩ := trails.baseRecord other
      exact ⟨found, by simp [first], there⟩
    · rw [newest]
      exact fun _ => last
    · rw [prev, before, front]
      exact trails.baseBefore
  · obtain ⟨prev, placed⟩ := changes same
    obtain ⟨run, front⟩ := lastRun_new same
    rw [if_neg same] at before
    refine ⟨count, by simp, log, header.trans trails.header, ?_, ?_, ?_, ?_, ?_, ?_⟩
    · rw [base, newestBase_snoc]
    · rw [prev, prevBase, front]
    · rw [base, prev]
      exact fun equal => absurd equal.symm same
    · rw [placed, run]
      exact fun _ => ⟨record, rfl, holds⟩
    · rw [newest]
      exact fun _ => last
    · rw [prev, before, front]
      intro positive
      apply trails.baseNewest
      rintro rfl
      exact positive rfl

/-- Every walk keeps its variables true to the records it has read. -/
theorem Takes.trails {disk : Disk} {first : Nat} {records : List WalRecord} {scan : Scan}
    (takes : Takes disk first records scan) : Trails disk records scan := by
  induction takes with
  | start => exact Trails.start disk
  | jump _ ih =>
    exact ⟨ih.count, ih.unread, ih.entries, ih.header, ih.newest, ih.prev, ih.still, ih.baseRecord,
      ih.baseNewest, ih.baseBefore⟩
  | take _ holds read ih =>
    rw [take_recordBytes holds.writable] at read
    cases read
    exact ih.step holds _
  | leave cursor ended _ ih =>
    unfold Scan.leaveSegment
    split
    · exact ⟨ih.count, ih.unread, ih.entries, ih.header, ih.newest, ih.prev, ih.still,
        ih.baseRecord, ih.baseNewest, ih.baseBefore⟩
    · exact ih

/-! ## The choice -/

/-- The record a base is read from: the first of the last run for the newest base, the
last one before that run for the base before. A base of zero is not read at all. -/
def carrierOf (records : List WalRecord) (base : Int) : Option WalRecord :=
  if base ≤ 0 then none
  else if base = newestBase records then (lastRun records).head?
  else (beforeRun records).getLast?

/-- The log above a base, with the record of that base put once more behind the others. -/
def logAbove (records : List WalRecord) (base : Int) : List PersistEntry :=
  (replay (records ++ (carrierOf records base).toList)).filter (fun entry => entry.index > base)

/-- Decoding a base from the place of a record puts that record once more. -/
theorem readBase_carried {disk : Disk} {scan : Scan} {base : Int} {found : Option WalRecord}
    {place : Place} (positive : 0 < base) (carried : Carried disk found place) :
    ∃ record, found = some record ∧ readBase disk scan base place =
      .ok (decoded scan.restore record scan.newestGeneration .base 0) := by
  obtain ⟨record, known, holds⟩ := carried
  refine ⟨record, known, ?_⟩
  have size := holds.size
  have present : place.size ≠ 0 := by
    have header : walHeaderSize = 24 := rfl
    omega
  rw [readBase, if_pos positive, if_neg present]
  simp only [size, Nat.add_sub_cancel_left, holds.payload,
    kStateDecodeRecord_recordBytes holds.writable]

theorem lastRun_head {records : List WalRecord} {record : WalRecord}
    (first : (lastRun records).head? = some record) :
    record ∈ records ∧ record.lastIncludedIndex = newestBase records := by
  have member := List.mem_of_head? first
  exact ⟨(List.rtakeWhile_suffix _ _).subset member, by simpa using List.mem_rtakeWhile_imp member⟩

section
variable {disk : Disk} {records : List WalRecord} {scan : Scan}

/-- The base of a choice that is not zero is one of the two, and the newest of them is
the higher one: had the base gone back, the remembered record would carry the lower. -/
theorem Trails.settled (trails : Trails disk records scan) {base : Int} {restore : Restore}
    (positive : 0 < base) (settled : settleBase disk scan = .ok (base, restore)) :
    prevBase records < newestBase records ∧
      (base = newestBase records ∨ base = prevBase records) := by
  rw [← trails.newest, ← trails.prev]
  unfold settleBase at settled
  cases picked : pickBase disk scan with
  | error refusal =>
    rw [picked] at settled
    cases settled
  | ok choice =>
    obtain ⟨chosen, place⟩ := choice
    rw [picked] at settled
    dsimp only at settled
    cases read : readBase disk scan chosen place with
    | error refusal =>
      rw [read] at settled
      cases settled
    | ok header =>
      rw [read] at settled
      dsimp only at settled
      by_cases mismatch : header.lastIncludedIndex ≠ chosen
      · rw [if_pos mismatch] at settled
        cases settled
      rw [if_neg mismatch] at settled
      cases settled
      have matches_base : restore.lastIncludedIndex = base := not_not.mp mismatch
      unfold pickBase at picked
      by_cases back : scan.newestBase < scan.prevBase
      · exfalso
        simp only [if_pos back] at picked
        by_cases verified : kSnapshotVerifyFile disk scan.prevBase = true
        · simp only [verified, if_true] at picked
          cases picked
          obtain ⟨record, known, again⟩ := @readBase_carried disk scan scan.prevBase _
            scan.baseRecord positive (trails.baseRecord (by omega))
          rw [read] at again
          cases again
          have carried := (lastRun_head known).2
          have lower := trails.newest
          have index : record.lastIncludedIndex = scan.prevBase := matches_base
          omega
        · simp only [verified, Bool.false_eq_true, and_false, if_false] at picked
          by_cases above : scan.prevBase > 0
          · rw [if_pos above] at picked
            cases picked
          · rw [if_neg above] at picked
            cases picked
            omega
      · simp only [if_neg back] at picked
        have distinct : 0 < scan.newestBase → scan.prevBase < scan.newestBase := by
          intro above
          by_contra low
          have zero := (trails.still (by omega)).1
          omega
        by_cases verified : kSnapshotVerifyFile disk scan.newestBase = true
        · simp only [verified, if_true] at picked
          cases picked
          exact ⟨distinct positive, .inl rfl⟩
        · simp only [verified, Bool.false_eq_true, if_false] at picked
          by_cases rolls : scan.newestBase > 0 ∧ scan.prevBase > 0 ∧
              kSnapshotVerifyFile disk scan.prevBase = true
          · rw [if_pos rolls] at picked
            cases picked
            exact ⟨distinct rolls.1, .inr rfl⟩
          · rw [if_neg rolls] at picked
            by_cases above : scan.newestBase > 0
            · rw [if_pos above] at picked
              cases picked
            · rw [if_neg above] at picked
              cases picked
              exact ⟨distinct positive, .inl rfl⟩

end

/-! ## The highest usable base -/

/-- A base that a record carries and whose snapshot file verifies. -/
structure Usable (disk : Disk) (records : List WalRecord) (base : Int) : Prop where
  positive : 0 < base
  carried : ∃ record ∈ records, record.lastIncludedIndex = base
  verified : kSnapshotVerifyFile disk base = true

/-- The highest such base. -/
def HighestUsable (disk : Disk) (records : List WalRecord) (base : Int) : Prop :=
  Usable disk records base ∧ ∀ other, Usable disk records other → other ≤ base

theorem Usable.highest {disk : Disk} {records : List WalRecord} {base : Int}
    (usable : Usable disk records base) : ∃ highest, HighestUsable disk records highest := by
  let good : List WalRecord := records.filter (fun record => 0 < record.lastIncludedIndex ∧
    kSnapshotVerifyFile disk record.lastIncludedIndex = true)
  have member : ∀ record, record ∈ good.toFinset ↔ record ∈ records ∧
      0 < record.lastIncludedIndex ∧
        kSnapshotVerifyFile disk record.lastIncludedIndex = true := by
    intro record
    simp [good]
  obtain ⟨found, present, same⟩ := usable.carried
  have some : good.toFinset.Nonempty :=
    ⟨found, (member found).mpr ⟨present, same ▸ usable.positive, same ▸ usable.verified⟩⟩
  obtain ⟨top, inside, upper⟩ := Finset.exists_max_image good.toFinset
    WalRecord.lastIncludedIndex some
  obtain ⟨listed, positive, verified⟩ := (member top).mp inside
  refine ⟨top.lastIncludedIndex, ⟨positive, ⟨top, listed, rfl⟩, verified⟩, ?_⟩
  rintro other ⟨above, ⟨record, here, rfl⟩, file⟩
  exact upper record ((member record).mpr ⟨here, above, file⟩)

/-- The metadata names a record that ends behind a place. -/
def NamesBeyond (disk : Disk) (newest : Place) : Prop :=
  ∃ state, walkBounds disk.metaFile = some (state, false) ∧ state.recordSize > 0 ∧
    acknowledgedBeyond state newest = true

/-- What a load from a base asks of the log: no acknowledged record is missing and the
log continues the base without a hole. -/
structure Whole (disk : Disk) (records : List WalRecord) (newest : Place) (base : Int) : Prop where
  acknowledged : ¬ NamesBeyond disk newest
  gapless : firstHole (base + 1) (logAbove records base) = none

section
variable {disk : Disk} {records : List WalRecord} {state : WalMetaState} {metaAbsent : Bool}
  {scan : Scan}

end

end Kynovo.Wal.BaseChoice
