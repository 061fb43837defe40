import Mathlib.Algebra.Group.Nat.Defs
import Mathlib.Data.List.Basic
import Mathlib.Data.List.Induction
import Mathlib.Data.List.Pairwise
import Mathlib.Tactic.Common

/-! The driver's clock: microsecond samples turned into whole milliseconds, the remainder
carried in the origin of the next step. -/
namespace Kynovo.Server.Clock

/-- `k_server_elapsed_step`: the milliseconds returned and the new `*last_us`. The pointer
is `none` when the caller passes no origin. -/
def kServerElapsedStep (nowUs : UInt64) (lastUs : Option UInt64) (capMs : UInt32) :
    UInt32 × Option UInt64 :=
  match lastUs with
  | none => (0, none)
  | some last =>
    -- the first sample establishes the origin; zero stands for "no sample yet"
    if last = 0 then (0, some nowUs)
    else if nowUs ≤ last then (0, some last)
    else
      let deltaUs := nowUs - last
      let ms := deltaUs / 1000
      if capMs ≠ 0 ∧ ms > capMs.toUInt64 then (capMs, some nowUs)
      else if ms = 0 then (0, some last)
      else (ms.toUInt32, some (last + ms * 1000))

/-- Whole milliseconds from one sample to a later one. -/
def wholeMs (fromUs toUs : UInt64) : Nat := (toUs.toNat - fromUs.toNat) / 1000

/-- The gap to the sample trips the cap, or with no cap does not fit what is returned. -/
def Trips (capMs : UInt32) (last now : UInt64) : Prop :=
  last ≠ 0 ∧ (if capMs = 0 then 2 ^ 32 ≤ wholeMs last now else capMs.toNat < wholeMs last now)

instance (capMs : UInt32) (last now : UInt64) : Decidable (Trips capMs last now) :=
  inferInstanceAs (Decidable (_ ∧ _))

/-- A driver's account: the origin it keeps and the milliseconds it has been given. -/
structure Account where
  lastUs : UInt64
  totalMs : Nat
  deriving DecidableEq

/-- `k_server_elapsed_ms` with the time it hands to `k_server_advance_at` added up. -/
def Account.sample (capMs : UInt32) (account : Account) (nowUs : UInt64) : Account :=
  match kServerElapsedStep nowUs (some account.lastUs) capMs with
  | (ms, last) => ⟨last.getD account.lastUs, account.totalMs + ms.toNat⟩

/-- The account after the samples, oldest first. -/
def Account.run (capMs : UInt32) (account : Account) (samples : List UInt64) : Account :=
  samples.foldl (Account.sample capMs) account

/-- The account of a server that starts with no sample. -/
def account (capMs : UInt32) (samples : List UInt64) : Account :=
  Account.run capMs ⟨0, 0⟩ samples

/-- No sample trips the cap in the state it meets. -/
def UntrippedFrom (capMs : UInt32) : Account → List UInt64 → Prop
  | _, [] => True
  | account, now :: rest =>
    ¬ Trips capMs account.lastUs now ∧ UntrippedFrom capMs (account.sample capMs now) rest

/-- No sample of a server's run trips the cap. -/
def Untripped (capMs : UInt32) (samples : List UInt64) : Prop :=
  UntrippedFrom capMs ⟨0, 0⟩ samples

instance instDecidableUntrippedFrom (capMs : UInt32) : ∀ (account : Account) (samples : List UInt64),
    Decidable (UntrippedFrom capMs account samples)
  | _, [] => .isTrue trivial
  | account, now :: rest =>
    have := instDecidableUntrippedFrom capMs (account.sample capMs now) rest
    inferInstanceAs (Decidable (_ ∧ _))

instance (capMs : UInt32) (samples : List UInt64) : Decidable (Untripped capMs samples) :=
  inferInstanceAs (Decidable (UntrippedFrom _ _ _))

/-- The first sample that is not the mark for "no sample yet". -/
def origin (samples : List UInt64) : UInt64 := (samples.find? (· ≠ 0)).getD 0

/-- What a call does on a sample that is not before the origin kept and trips nothing. -/
theorem sample_of_kept (capMs : UInt32) (account : Account) (now : UInt64)
    (kept : account.lastUs ≠ 0) (later : account.lastUs ≤ now)
    (untripped : ¬ Trips capMs account.lastUs now) :
    (account.sample capMs now).totalMs = account.totalMs + wholeMs account.lastUs now ∧
      (account.sample capMs now).lastUs.toNat =
        account.lastUs.toNat + 1000 * wholeMs account.lastUs now := by
  have order : account.lastUs.toNat ≤ now.toNat := UInt64.le_iff_toNat_le.mp later
  have bound : now.toNat < 2 ^ 64 := now.toNat_lt
  have delta : (now - account.lastUs).toNat = now.toNat - account.lastUs.toNat :=
    UInt64.toNat_sub_of_le _ _ later
  have quotient : ((now - account.lastUs) / 1000).toNat = wholeMs account.lastUs now := by
    rw [UInt64.toNat_div, delta]
    rfl
  have whole : 1000 * wholeMs account.lastUs now ≤ now.toNat - account.lastUs.toNat :=
    Nat.mul_div_le _ _
  unfold Account.sample kServerElapsedStep
  simp only [kept, if_false]
  by_cases early : now ≤ account.lastUs
  · have same : now.toNat ≤ account.lastUs.toNat := UInt64.le_iff_toNat_le.mp early
    have none : wholeMs account.lastUs now = 0 := by
      unfold wholeMs
      omega
    simp [early, none]
  · have within : ¬ (capMs ≠ 0 ∧ (now - account.lastUs) / 1000 > capMs.toUInt64) := by
      rintro ⟨capped, tripped⟩
      have tripped : capMs.toNat < wholeMs account.lastUs now := by
        simpa [← quotient] using UInt64.lt_iff_toNat_lt.mp tripped
      exact untripped ⟨kept, by simpa [capped] using tripped⟩
    have fits : wholeMs account.lastUs now < 2 ^ 32 := by
      by_contra wide
      by_cases capped : capMs = 0
      · exact untripped ⟨kept, by simpa [capped] using wide⟩
      · have small := capMs.toNat_lt
        exact untripped ⟨kept, by simp only [capped, if_false]; omega⟩
    simp only [early, within, if_false]
    by_cases sub : (now - account.lastUs) / 1000 = 0
    · have none : wholeMs account.lastUs now = 0 := by
        rw [← quotient, sub]
        rfl
      simp [sub, none]
    · have narrowed : ((now - account.lastUs) / 1000).toUInt32.toNat =
          wholeMs account.lastUs now := by
        rw [UInt64.toNat_toUInt32, quotient, Nat.mod_eq_of_lt fits]
      have moved : (account.lastUs + (now - account.lastUs) / 1000 * 1000).toNat =
          account.lastUs.toNat + 1000 * wholeMs account.lastUs now := by
        rw [UInt64.toNat_add, UInt64.toNat_mul, quotient]
        have thousand : (1000 : UInt64).toNat = 1000 := rfl
        rw [thousand]
        omega
      simp only [sub, if_false, Option.getD_some, narrowed, moved]
      exact ⟨trivial, trivial⟩

/-- While only zeros have been sampled, the next sample becomes the origin. -/
theorem sample_of_fresh (capMs : UInt32) (account : Account) (now : UInt64)
    (fresh : account.lastUs = 0) :
    account.sample capMs now = ⟨now, account.totalMs⟩ := by
  unfold Account.sample kServerElapsedStep
  simp [fresh]

theorem account_append (capMs : UInt32) (samples : List UInt64) (now : UInt64) :
    account capMs (samples ++ [now]) = (account capMs samples).sample capMs now := by
  simp [account, Account.run]

/-- What the account keeps: the origin moved by exactly the time handed out, and less than
a millisecond of the last sample not handed out yet. -/
structure Balanced (account : Account) (first last : UInt64) : Prop where
  moved : account.lastUs.toNat = first.toNat + 1000 * account.totalMs
  behind : account.lastUs.toNat ≤ last.toNat
  remainder : last.toNat < account.lastUs.toNat + 1000

theorem Balanced.total {account : Account} {first last : UInt64}
    (balanced : Balanced account first last) : account.totalMs = wholeMs first last := by
  have moved := balanced.moved
  have behind := balanced.behind
  have remainder := balanced.remainder
  unfold wholeMs
  omega

/-- One sample that is not before the last one and trips nothing keeps the balance. -/
theorem Balanced.sample {account : Account} {first last now : UInt64} {capMs : UInt32}
    (balanced : Balanced account first last) (nonzero : first ≠ 0) (later : last ≤ now)
    (untripped : ¬ Trips capMs account.lastUs now) :
    Balanced (account.sample capMs now) first now := by
  have moved := balanced.moved
  have behind := balanced.behind
  have order : last.toNat ≤ now.toNat := UInt64.le_iff_toNat_le.mp later
  have kept : account.lastUs ≠ 0 := by
    intro zero
    rw [zero] at moved
    apply nonzero
    apply UInt64.toNat_inj.mp
    have none : (0 : UInt64).toNat = 0 := rfl
    omega
  have onward : account.lastUs ≤ now := UInt64.le_iff_toNat_le.mpr (Nat.le_trans behind order)
  obtain ⟨total, origin⟩ := sample_of_kept capMs account now kept onward untripped
  constructor
  · rw [origin, total, moved]
    omega
  · rw [origin]
    unfold wholeMs
    omega
  · rw [origin]
    unfold wholeMs
    omega

theorem untrippedFrom_append (capMs : UInt32) (start : Account) (samples : List UInt64)
    (now : UInt64) : UntrippedFrom capMs start (samples ++ [now]) ↔
      UntrippedFrom capMs start samples ∧
        ¬ Trips capMs (start.run capMs samples).lastUs now := by
  induction samples generalizing start with
  | nil => simp [UntrippedFrom, Account.run]
  | cons first rest ih =>
    have later := ih (start.sample capMs first)
    simp only [List.cons_append, UntrippedFrom, later, and_assoc]
    rfl

/-- The account of a run of samples: nothing handed out before the first nonzero sample,
balanced from it on. -/
theorem account_balanced (capMs : UInt32) (samples : List UInt64)
    (ordered : samples.Pairwise (· ≤ ·)) (untripped : Untripped capMs samples) :
    (samples.find? (· ≠ 0) = none ∧ account capMs samples = ⟨0, 0⟩) ∨
      ∃ first last, samples.find? (· ≠ 0) = some first ∧ samples.getLast? = some last ∧
        Balanced (account capMs samples) first last := by
  induction samples using List.reverseRecOn with
  | nil => exact Or.inl ⟨rfl, rfl⟩
  | append_singleton samples now ih =>
    obtain ⟨orderedInit, -, laterThan⟩ := List.pairwise_append.mp ordered
    obtain ⟨untrippedInit, gap⟩ := (untrippedFrom_append _ _ _ _).mp untripped
    rw [account_append, List.find?_append, List.getLast?_append]
    cases ih orderedInit untrippedInit with
    | inl zeros =>
      obtain ⟨unseen, fresh⟩ := zeros
      rw [unseen, fresh, sample_of_fresh capMs ⟨0, 0⟩ now rfl]
      by_cases zero : now = 0
      · left
        simp [zero]
      · right
        refine ⟨now, now, by simp [zero], rfl, ?_⟩
        constructor
        · simp
        · exact Nat.le_refl _
        · show now.toNat < now.toNat + 1000
          omega
    | inr running =>
      obtain ⟨first, last, found, ended, balanced⟩ := running
      right
      refine ⟨first, now, by rw [found]; rfl, rfl, ?_⟩
      apply balanced.sample
      · simpa using List.find?_some found
      · exact laterThan last (List.mem_of_getLast? ended) now (by simp)
      · exact gap

/-- The time handed out after each call is the whole milliseconds from the first nonzero
sample to the last one. -/
theorem elapsed_conserves_time (capMs : UInt32) (samples : List UInt64) (now : UInt64)
    (ordered : (samples ++ [now]).Pairwise (· ≤ ·))
    (untripped : Untripped capMs (samples ++ [now])) :
    (account capMs (samples ++ [now])).totalMs = wholeMs (origin (samples ++ [now])) now := by
  cases account_balanced capMs (samples ++ [now]) ordered untripped with
  | inl zeros =>
    obtain ⟨unseen, fresh⟩ := zeros
    have zero : now = 0 := by
      by_contra nonzero
      exact List.find?_eq_none.mp unseen now (by simp) (by simpa using nonzero)
    rw [fresh, zero]
    unfold wholeMs
    simp
  | inr running =>
    obtain ⟨first, last, found, ended, balanced⟩ := running
    have same : last = now := by simpa using ended.symm
    rw [balanced.total, same]
    unfold origin
    rw [found]
    rfl

theorem elapsed_conserves_two_steps :
    ([1000000, 1000999, 1002500] : List UInt64).Pairwise (· ≤ ·) ∧
      Untripped 1000 [1000000, 1000999, 1002500] ∧
      (account 1000 [1000000, 1000999, 1002500]).totalMs =
        wholeMs (origin [1000000, 1000999, 1002500]) 1002500 := by
  have ordered : ([1000000, 1000999, 1002500] : List UInt64).Pairwise (· ≤ ·) := by decide
  have untripped : Untripped 1000 [1000000, 1000999, 1002500] := by decide
  exact ⟨ordered, untripped,
    elapsed_conserves_time 1000 [1000000, 1000999] 1002500 ordered untripped⟩

/-- Samples that start at zero: the five milliseconds after it are not handed out, since
zero is the mark for "no sample yet". Without a cap, a gap of 2^32 milliseconds is handed
out as none. -/
theorem zero_sample_loses_time :
    (([0, 5000] : List UInt64).Pairwise (· ≤ ·) ∧ Untripped 1000 [0, 5000] ∧
      (account 1000 [0, 5000]).totalMs ≠ wholeMs 0 5000) ∧
    ([1, 4294967296001] : List UInt64).Pairwise (· ≤ ·) ∧
      (account 0 [1, 4294967296001]).totalMs ≠ wholeMs 1 4294967296001 := by
  exact ⟨⟨by decide, by decide, by decide⟩, by decide, by decide⟩

end Kynovo.Server.Clock
