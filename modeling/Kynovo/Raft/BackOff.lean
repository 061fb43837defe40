import Mathlib.Tactic.IntervalCases
import Kynovo.Raft.Recv

/-! Backing off after a rejected probe. The leader probes a follower at the entry before
the next index; a follower that does not hold that entry rejects with hints from its own
log, and the leader moves the next index. Each log has a snapshot base of its own. -/
namespace Kynovo.Raft.BackOff

/-! ## The search in the leader's log -/

/-- The terms of the entries do not decrease. -/
def TermsAscend (log : Log) : Prop :=
  ∀ i j, log.lastIncludedIndex < i → i ≤ j → j ≤ raftLogLastIndex log →
    raftLogTermAt log i ≤ raftLogTermAt log j

/-- The last entry of a term among the first entries, found by going back one by one. -/
def scanBack (log : Log) (term : Int) : Nat → Option Int
  | 0 => none
  | count + 1 =>
    if raftLogTermAt log (log.lastIncludedIndex + 1 + count) = term then
      some (log.lastIncludedIndex + 1 + count)
    else scanBack log term count

/-- What the next index after a conflict is meant to be: one past the last entry of the
conflicting term, where the log has one, else the follower's first index of that term; at
most one past the end of the log. -/
def conflictScan (log : Log) (conflictTerm conflictFirstIndex : Int) : Int :=
  min (((scanBack log conflictTerm log.entries.length).map (· + 1)).getD conflictFirstIndex)
    (raftLogLastIndex log + 1)

theorem scanBack_some {log : Log} {term idx : Int} {count : Nat}
    (found : scanBack log term count = some idx) :
    log.lastIncludedIndex < idx ∧ idx ≤ log.lastIncludedIndex + count ∧
      raftLogTermAt log idx = term ∧
      ∀ i, idx < i → i ≤ log.lastIncludedIndex + count → raftLogTermAt log i ≠ term := by
  induction count with
  | zero => cases found
  | succ count ih =>
    unfold scanBack at found
    split at found
    · rename_i same
      cases found
      refine ⟨by omega, by omega, same, ?_⟩
      intro i above below
      omega
    · rename_i other
      obtain ⟨low, high, same, none'⟩ := ih found
      refine ⟨low, by omega, same, ?_⟩
      intro i above below
      by_cases last : i = log.lastIncludedIndex + 1 + count
      · rw [last]
        exact other
      · exact none' i above (by omega)

theorem scanBack_none {log : Log} {term : Int} {count : Nat}
    (missing : scanBack log term count = none) :
    ∀ i, log.lastIncludedIndex < i → i ≤ log.lastIncludedIndex + count →
      raftLogTermAt log i ≠ term := by
  induction count with
  | zero =>
    intro i above below
    omega
  | succ count ih =>
    unfold scanBack at missing
    split at missing
    · cases missing
    · rename_i other
      intro i above below
      by_cases last : i = log.lastIncludedIndex + 1 + count
      · rw [last]
        exact other
      · exact ih missing i above (by omega)

/-- The search splits the interval at the first term above the one it looks for. -/
theorem firstAbove_splits {log : Log} (ascend : TermsAscend log) {term a b : Int} {steps : Nat}
    (enough : b - a ≤ steps) (ordered : a ≤ b) (above : log.lastIncludedIndex < a)
    (below : b ≤ raftLogLastIndex log + 1) :
    a ≤ firstAbove log term steps a b ∧ firstAbove log term steps a b ≤ b ∧
      (∀ i, a ≤ i → i < firstAbove log term steps a b → raftLogTermAt log i ≤ term) ∧
      ∀ i, firstAbove log term steps a b ≤ i → i < b → term < raftLogTermAt log i := by
  induction steps generalizing a b with
  | zero =>
    have same : a = b := by omega
    unfold firstAbove
    refine ⟨le_refl a, ordered, ?_, ?_⟩
    · intro i low high
      omega
    · intro i low high
      omega
  | succ steps ih =>
    unfold firstAbove
    split
    · rename_i open'
      dsimp only
      have middle : a ≤ a + (b - a) / 2 ∧ a + (b - a) / 2 < b := by omega
      split
      · rename_i greater
        obtain ⟨low, high, left, right⟩ := @ih a (a + (b - a) / 2) (by omega) (by omega)
          above (by omega)
        refine ⟨low, by omega, left, ?_⟩
        intro i past within
        by_cases front : i < a + (b - a) / 2
        · exact right i past front
        · have order := ascend (a + (b - a) / 2) i (by omega) (by omega) (by omega)
          omega
      · rename_i notGreater
        obtain ⟨low, high, left, right⟩ := @ih (a + (b - a) / 2 + 1) b (by omega)
          (by omega) (by omega) below
        refine ⟨by omega, high, ?_, right⟩
        intro i past within
        by_cases front : a + (b - a) / 2 < i
        · exact left i (by omega) within
        · have order := ascend i (a + (b - a) / 2) (by omega) (by omega) (by omega)
          omega
    · rename_i closed
      refine ⟨le_refl a, ordered, ?_, ?_⟩
      · intro i low high
        omega
      · intro i low high
        omega

/-- The binary search gives what the scan gives. -/
theorem conflictNext_eq_scan {log : Log} (ascend : TermsAscend log)
    (conflictTerm conflictFirstIndex : Int) :
    conflictNext log conflictTerm conflictFirstIndex =
      conflictScan log conflictTerm conflictFirstIndex := by
  have last : raftLogLastIndex log = log.lastIncludedIndex + log.entries.length := rfl
  have splits := @firstAbove_splits log ascend conflictTerm (log.lastIncludedIndex + 1)
    (raftLogLastIndex log + 1) (log.entries.length + 1) (by omega) (by omega) (by omega) (le_refl _)
  unfold conflictNext conflictScan
  dsimp only
  generalize firstAbove log conflictTerm (log.entries.length + 1) (log.lastIncludedIndex + 1)
    (raftLogLastIndex log + 1) = cut at splits ⊢
  obtain ⟨low, high, left, right⟩ := splits
  cases scanned : scanBack log conflictTerm log.entries.length with
  | some idx =>
    obtain ⟨above, below, same, none'⟩ := scanBack_some scanned
    have before : idx < cut := by
      by_contra past
      have greater := right idx (by omega) (by omega)
      omega
    have adjacent : idx = cut - 1 := by
      by_contra apart
      have lower := left (cut - 1) (by omega) (by omega)
      have order := ascend idx (cut - 1) above (by omega) (by omega)
      exact none' (cut - 1) (by omega) (by omega) (by omega)
    have resumes : (decide (log.lastIncludedIndex + 1 < cut) &&
        decide (raftLogTermAt log (cut - 1) = conflictTerm)) = true := by
      rw [← adjacent, same]
      simp only [decide_true, Bool.and_true, decide_eq_true_eq]
      omega
    rw [if_pos resumes]
    simp only [Option.map_some, Option.getD_some]
    omega
  | none =>
    have absent := scanBack_none scanned
    have skips : ¬(decide (log.lastIncludedIndex + 1 < cut) &&
        decide (raftLogTermAt log (cut - 1) = conflictTerm)) = true := by
      simp only [Bool.and_eq_true, decide_eq_true_eq, not_and]
      intro inside
      exact absent (cut - 1) (by omega) (by omega)
    rw [if_neg skips]
    rfl

/-! ## The exchange -/

/-- Why a follower rejects a message: the previous entry does not match, or an entry lies
in its compacted prefix. The value is the hint of the rejection. -/
def rejectHint (log : Log) (rpc : AppendEntries) : Option Int :=
  match prevMismatch log rpc with
  | some hint => some hint
  | none =>
    if scanEntries log (rpc.prevLogIndex + 1) rpc.entries = .belowBase then
      some (log.lastIncludedIndex + 1)
    else none

/-- The rejection a follower builds. -/
def rejection (r : Node) (rpc : AppendEntries) (hint : Int) : AppendEntriesResult :=
  let last := raftLogLastIndex r.log
  let rejected := if 0 < hint then hint
    else if last < rpc.prevLogIndex then last + 1 else rpc.prevLogIndex
  let hints := conflictHints r.log rpc.prevLogIndex
  ⟨r.currentTerm, rejected, last, hints.1, hints.2, rpc.readContext, false⟩

/-- Two logs match where both can be read: entries of one term come from one leader, so a
term that both hold makes them agree up to the smaller of its two indexes; and the
follower's snapshot ends in an entry of the leader's log. -/
structure Matching (leader follower : Log) : Prop where
  indexed : 0 ≤ leader.lastIncludedIndex ∧ 0 ≤ follower.lastIncludedIndex
  terms : ∀ i j, leader.lastIncludedIndex < i → i ≤ raftLogLastIndex leader →
    follower.lastIncludedIndex < j → j ≤ raftLogLastIndex follower →
    raftLogTermAt leader i = raftLogTermAt follower j →
    ∀ k, leader.lastIncludedIndex ≤ k → follower.lastIncludedIndex ≤ k → k ≤ i → k ≤ j →
      raftLogTermAt leader k = raftLogTermAt follower k
  covered : follower.lastIncludedIndex ≤ raftLogLastIndex leader
  base : leader.lastIncludedIndex ≤ follower.lastIncludedIndex → 0 < follower.lastIncludedIndex →
    raftLogTermAt leader follower.lastIncludedIndex =
      raftLogTermAt follower follower.lastIncludedIndex

/-- The message that probes a follower at a next index. -/
def probe (leader : Node) (peer : Peer) (next : Int) : AppendEntries :=
  appendMessage leader { peer with nextIndex := next }

/-- The next index after a rejection. -/
def backOff (leader follower : Node) (peer : Peer) (next hint : Int) : Int :=
  (ackPeer leader (rejection follower (probe leader peer next) hint)
    { peer with nextIndex := next }).nextIndex

theorem conflictFirst_range {log : Log} {term : Int} {steps : Nat} {idx : Int}
    (above : log.lastIncludedIndex < idx) :
    log.lastIncludedIndex < conflictFirst log term steps idx ∧
      conflictFirst log term steps idx ≤ idx := by
  induction steps generalizing idx with
  | zero => exact ⟨above, le_refl idx⟩
  | succ steps ih =>
    unfold conflictFirst
    split
    · rename_i more
      simp only [Bool.and_eq_true, decide_eq_true_eq] at more
      obtain ⟨low, high⟩ := @ih (idx - 1) (by omega)
      exact ⟨low, by omega⟩
    · exact ⟨above, le_refl idx⟩

/-- How the leader reads a rejection. -/
theorem ackPeer_rejected (leader : Node) (peer : Peer) {result : AppendEntriesResult}
    (failed : result.success = false) :
    (ackPeer leader result peer).nextIndex =
      if 0 < result.conflictTerm ∧ 0 < result.conflictFirstIndex then
        conflictNext leader.log result.conflictTerm result.conflictFirstIndex
      else if 0 < result.rejected then result.rejected
      else if 1 < peer.nextIndex then peer.nextIndex - 1
      else peer.nextIndex := by
  unfold ackPeer
  simp only [failed, Bool.false_and, Bool.or_false, Bool.false_eq_true, if_false, Bool.and_eq_true,
    decide_eq_true_eq]
  by_cases hints : 0 < result.conflictTerm ∧ 0 < result.conflictFirstIndex
  · rw [if_pos hints, if_pos hints]
  · rw [if_neg hints, if_neg hints]
    by_cases told : 0 < result.rejected
    · rw [if_pos told, if_pos told]
    · rw [if_neg told, if_neg told]
      cases peer.isLearner with
      | true =>
        simp only [if_true]
        split
        · rfl
        · rfl
      | false =>
        simp only [Bool.false_eq_true, if_false]
        split
        · rfl
        · rfl

theorem scanEntries_above {log : Log} {idx : Int} {entries : List Entry}
    (above : log.lastIncludedIndex < idx) : scanEntries log idx entries ≠ .belowBase := by
  induction entries generalizing idx with
  | nil => exact fun below => AppendScan.noConfusion below
  | cons entry rest ih =>
    unfold scanEntries
    split
    · exact fun below => AppendScan.noConfusion below
    · split
      · exact ih (by omega)
      · split
        · split
          · omega
          · exact fun below => AppendScan.noConfusion below
        · exact fun below => AppendScan.noConfusion below

/-- A probe right above the follower's snapshot is accepted. -/
theorem probe_at_base {leader follower : Node} {peer : Peer}
    (matching : Matching leader.log follower.log)
    (reaches : leader.log.lastIncludedIndex ≤ follower.log.lastIncludedIndex) :
    rejectHint follower.log (probe leader peer (follower.log.lastIncludedIndex + 1)) = none := by
  have prev : (probe leader peer (follower.log.lastIncludedIndex + 1)).prevLogIndex =
      follower.log.lastIncludedIndex := by
    simp [probe, appendMessage]
  have prevTerm : (probe leader peer (follower.log.lastIncludedIndex + 1)).prevLogTerm =
      raftLogTermAt leader.log follower.log.lastIncludedIndex := by
    simp [probe, appendMessage]
  have tip : follower.log.lastIncludedIndex ≤ raftLogLastIndex follower.log := by
    simp [raftLogLastIndex]
  have agrees : prevMismatch follower.log
      (probe leader peer (follower.log.lastIncludedIndex + 1)) = none := by
    unfold prevMismatch
    rw [prev, prevTerm]
    split
    · rename_i positive
      rw [if_neg (by omega), if_neg (by omega), if_neg (not_not.mpr
        (matching.base reaches positive).symm)]
    · rfl
  unfold rejectHint
  rw [agrees, prev]
  exact if_neg (scanEntries_above (by omega))

/-- Why the follower rejects a probe, with what its rejection says. -/
theorem rejection_cases {leader follower : Node} {peer : Peer} {next hint : Int}
    (matching : Matching leader.log follower.log) (reach : leader.log.lastIncludedIndex < next)
    (rejected : rejectHint follower.log (probe leader peer next) = some hint) :
    -- the follower's log is too short
    (raftLogLastIndex follower.log < next - 1 ∧ hint = 0) ∨
    -- the probe lies in the follower's snapshot
    (next - 1 < follower.log.lastIncludedIndex ∧ hint = follower.log.lastIncludedIndex + 1) ∨
    -- the follower holds another entry there
    (follower.log.lastIncludedIndex < next - 1 ∧ next - 1 ≤ raftLogLastIndex follower.log ∧
      0 < next - 1 ∧ raftLogTermAt follower.log (next - 1) ≠ raftLogTermAt leader.log (next - 1) ∧
      hint = 0) := by
  have prev : (probe leader peer next).prevLogIndex = next - 1 := rfl
  have prevTerm : (probe leader peer next).prevLogTerm = raftLogTermAt leader.log (next - 1) := rfl
  unfold rejectHint at rejected
  split at rejected
  · rename_i mismatch
    cases rejected
    unfold prevMismatch at mismatch
    rw [prev, prevTerm] at mismatch
    split at mismatch
    · rename_i positive
      split at mismatch
      · cases mismatch
        exact .inl ⟨by omega, rfl⟩
      · split at mismatch
        · cases mismatch
          exact .inr (.inl ⟨by omega, rfl⟩)
        · split at mismatch
          · rename_i differs
            cases mismatch
            have apart : next - 1 ≠ follower.log.lastIncludedIndex := by
              intro same
              apply differs
              rw [same]
              exact (matching.base (by omega) (by omega)).symm
            exact .inr (.inr ⟨by omega, by omega, positive, differs, rfl⟩)
          · cases mismatch
    · cases mismatch
  · split at rejected
    · rename_i below
      cases rejected
      rw [prev] at below
      refine .inr (.inl ⟨?_, rfl⟩)
      by_contra above
      exact scanEntries_above (by omega) below
    · cases rejected

/-- The next index after a rejection, from the two logs. -/
theorem backOff_eq (leader follower : Node) (peer : Peer) (next hint : Int) :
    backOff leader follower peer next hint =
      if 0 < (conflictHints follower.log (next - 1)).1 ∧ 0 < (conflictHints follower.log (next - 1)).2 then
        conflictNext leader.log (conflictHints follower.log (next - 1)).1
          (conflictHints follower.log (next - 1)).2
      else if 0 < (if 0 < hint then hint else if raftLogLastIndex follower.log < next - 1 then
          raftLogLastIndex follower.log + 1 else next - 1) then
        if 0 < hint then hint else if raftLogLastIndex follower.log < next - 1 then
          raftLogLastIndex follower.log + 1 else next - 1
      else if 1 < next then next - 1 else next :=
  ackPeer_rejected leader { peer with nextIndex := next } rfl

/-- A rejection moves the next index back, or to the follower's base where the next probe
is accepted. -/
theorem backOff_progress {leader follower : Node} {peer : Peer} {next hint : Int}
    (ascend : TermsAscend leader.log) (matching : Matching leader.log follower.log)
    (reach : leader.log.lastIncludedIndex < next) (inside : next ≤ raftLogLastIndex leader.log + 1)
    (rejected : rejectHint follower.log (probe leader peer next) = some hint) :
    (1 ≤ backOff leader follower peer next hint ∧
      backOff leader follower peer next hint ≤ raftLogLastIndex leader.log + 1) ∧
    (backOff leader follower peer next hint < next ∨
      (backOff leader follower peer next hint = follower.log.lastIncludedIndex + 1 ∧
        rejectHint follower.log (probe leader peer (follower.log.lastIncludedIndex + 1)) = none)) := by
  have indexed := matching.indexed
  have covered := matching.covered
  have tip : follower.log.lastIncludedIndex ≤ raftLogLastIndex follower.log := by
    simp [raftLogLastIndex]
  rcases rejection_cases matching reach rejected with ⟨short, rfl⟩ | ⟨compacted, rfl⟩ |
    ⟨above, within, positive, differs, rfl⟩
  · have hints : conflictHints follower.log (next - 1) = (0, 0) := by
      simp [conflictHints, not_le.mpr short]
    have lands : backOff leader follower peer next 0 = raftLogLastIndex follower.log + 1 := by
      rw [backOff_eq, hints, if_neg (by simp), if_neg (lt_irrefl 0), if_pos short, if_pos (by omega)]
    rw [lands]
    exact ⟨⟨by omega, by omega⟩, .inl (by omega)⟩
  · have hints : conflictHints follower.log (next - 1) = (0, 0) := by
      simp [conflictHints, not_lt.mpr compacted.le]
    have lands : backOff leader follower peer next (follower.log.lastIncludedIndex + 1) =
        follower.log.lastIncludedIndex + 1 := by
      rw [backOff_eq, hints, if_neg (by simp)]
      rw [if_pos (show 0 < follower.log.lastIncludedIndex + 1 by omega), if_pos (by omega)]
    rw [lands]
    exact ⟨⟨by omega, by omega⟩, .inr ⟨rfl, probe_at_base matching (by omega)⟩⟩
  · have first := @conflictFirst_range follower.log (raftLogTermAt follower.log (next - 1))
      follower.log.entries.length (next - 1) above
    by_cases real : 0 < raftLogTermAt follower.log (next - 1)
    · have hints : conflictHints follower.log (next - 1) =
          (raftLogTermAt follower.log (next - 1), conflictFirst follower.log
            (raftLogTermAt follower.log (next - 1)) follower.log.entries.length (next - 1)) := by
        have probed : 1 < next := by omega
        simp [conflictHints, probed, above, within, real]
      have lands : backOff leader follower peer next 0 = conflictScan leader.log
          (raftLogTermAt follower.log (next - 1)) (conflictFirst follower.log
            (raftLogTermAt follower.log (next - 1)) follower.log.entries.length (next - 1)) := by
        rw [backOff_eq, hints, if_pos ⟨real, by omega⟩, conflictNext_eq_scan ascend]
      rw [lands]
      unfold conflictScan
      cases scanned : scanBack leader.log (raftLogTermAt follower.log (next - 1))
        leader.log.entries.length with
      | some idx =>
        obtain ⟨low, high, same, -⟩ := scanBack_some scanned
        -- an entry of that term at or behind the probe would make the logs agree there
        have before : idx < next - 1 := by
          by_contra past
          exact differs (matching.terms idx (next - 1) low high above within same (next - 1)
            (by omega) above.le (by omega) (le_refl _)).symm
        simp only [Option.map_some, Option.getD_some]
        exact ⟨⟨by omega, by omega⟩, .inl (by omega)⟩
      | none =>
        simp only [Option.map_none, Option.getD_none]
        exact ⟨⟨by omega, by omega⟩, .inl (by omega)⟩
    · have hints : conflictHints follower.log (next - 1) = (0, 0) := by
        simp [conflictHints, real]
      have lands : backOff leader follower peer next 0 = next - 1 := by
        rw [backOff_eq, hints, if_neg (by simp), if_neg (lt_irrefl 0), if_neg (not_lt.mpr within),
          if_pos positive]
      rw [lands]
      exact ⟨⟨by omega, by omega⟩, .inl (by omega)⟩

/-- How an exchange of probes and rejections ends. -/
inductive Outcome where
  | accepted
  | snapshot
deriving DecidableEq

/-- The exchange from a next index on. -/
def exchange (leader follower : Node) (peer : Peer) : Nat → Int → Option Outcome
  | 0, _ => none
  | rounds + 1, next =>
    if next ≤ leader.log.lastIncludedIndex then some .snapshot
    else
      match rejectHint follower.log (probe leader peer next) with
      | none => some .accepted
      | some hint => exchange leader follower peer rounds (backOff leader follower peer next hint)

/-- At most two rounds more than there are entries below the next index. -/
theorem exchange_ends {leader follower : Node} {peer : Peer} {next : Int} {rounds : Nat}
    (ascend : TermsAscend leader.log) (matching : Matching leader.log follower.log)
    (inside : next ≤ raftLogLastIndex leader.log + 1)
    (enough : next - leader.log.lastIncludedIndex + 2 ≤ rounds) (some' : 2 ≤ rounds) :
    exchange leader follower peer rounds next ≠ none := by
  induction rounds generalizing next with
  | zero => omega
  | succ rounds ih =>
    unfold exchange
    split
    · simp
    · rename_i reach
      split
      · simp
      · rename_i hint rejected
        obtain ⟨⟨low, high⟩, moved⟩ := backOff_progress ascend matching (by omega) inside rejected
        rcases moved with back | ⟨lands, accepted⟩
        · exact ih high (by omega) (by omega)
        · obtain ⟨rounds, rfl⟩ := Nat.exists_eq_succ_of_ne_zero (show rounds ≠ 0 by omega)
          rw [lands]
          unfold exchange
          split
          · simp
          · rw [accepted]
            simp

/-- For a leader's log with ascending terms the binary search is the scan; and with a
follower whose log matches, every rejected probe makes progress and the exchange ends in
an accepted probe or in the snapshot path. -/
theorem back_off_converges (leader follower : Node) (peer : Peer) (ascend : TermsAscend leader.log) :
    (∀ conflictTerm conflictFirstIndex, conflictNext leader.log conflictTerm conflictFirstIndex =
      conflictScan leader.log conflictTerm conflictFirstIndex) ∧
    (Matching leader.log follower.log →
      (∀ next hint, leader.log.lastIncludedIndex < next → next ≤ raftLogLastIndex leader.log + 1 →
        rejectHint follower.log (probe leader peer next) = some hint →
        (1 ≤ backOff leader follower peer next hint ∧
          backOff leader follower peer next hint ≤ raftLogLastIndex leader.log + 1) ∧
        (backOff leader follower peer next hint < next ∨
          (backOff leader follower peer next hint = follower.log.lastIncludedIndex + 1 ∧
            rejectHint follower.log
              (probe leader peer (follower.log.lastIncludedIndex + 1)) = none))) ∧
      ∀ next, next ≤ raftLogLastIndex leader.log + 1 →
        ∃ rounds, exchange leader follower peer rounds next ≠ none) := by
  refine ⟨conflictNext_eq_scan ascend, fun matching => ⟨?_, ?_⟩⟩
  · intro next hint reach inside rejected
    exact backOff_progress ascend matching reach inside rejected
  · intro next inside
    refine ⟨(next - leader.log.lastIncludedIndex).toNat + 2, ?_⟩
    exact exchange_ends ascend matching inside (by omega) (by omega)

/-! Two logs of the plain form of log matching: the same term at the same index makes them
agree up to there. -/

def PlainMatching (leader follower : Log) : Prop :=
  ∀ i, leader.lastIncludedIndex < i → i ≤ raftLogLastIndex leader →
    follower.lastIncludedIndex < i → i ≤ raftLogLastIndex follower →
    raftLogTermAt leader i = raftLogTermAt follower i →
    ∀ k, leader.lastIncludedIndex ≤ k → follower.lastIncludedIndex ≤ k → k ≤ i →
      raftLogTermAt leader k = raftLogTermAt follower k

/-- A node with a log of these terms. -/
def nodeOf (terms : List Int) : Node :=
  { freshNode ⟨1, [1, 2], false, 10, 100, 200, 7, 1024, 4, none⟩ [1, 2] with
    log := ⟨terms.map noopEntry, 0, 0, 1024⟩ }

/-- The leader's record of the follower. -/
def peerTwo : Peer := { id := 2 }

/-- A follower behind by a term is brought back to the last entry both have. -/
theorem short_run_ends :
    Matching (nodeOf [1, 1, 2, 2]).log (nodeOf [1, 1, 1]).log ∧
      rejectHint (nodeOf [1, 1, 1]).log (probe (nodeOf [1, 1, 2, 2]) peerTwo 4) = some 0 ∧
      ∃ rounds, exchange (nodeOf [1, 1, 2, 2]) (nodeOf [1, 1, 1]) peerTwo rounds 4 ≠ none := by
  have ascend : TermsAscend (nodeOf [1, 1, 2, 2]).log := by
    intro i j low order high
    have above : 0 < i := low
    have below : j ≤ 4 := high
    have start : 0 < j := by omega
    interval_cases j <;> interval_cases i <;> decide
  have matching : Matching (nodeOf [1, 1, 2, 2]).log (nodeOf [1, 1, 1]).log := by
    refine ⟨by decide, ?_, by decide, by decide⟩
    intro i j low high low' high' same k above _ first second
    have iLow : 0 < i := low
    have iHigh : i ≤ 4 := high
    have jLow : 0 < j := low'
    have jHigh : j ≤ 3 := high'
    have kLow : 0 ≤ k := above
    revert same
    interval_cases i <;> interval_cases j <;> interval_cases k <;> decide
  have converges := (back_off_converges _ (nodeOf [1, 1, 1]) peerTwo ascend).2 matching
  exact ⟨matching, by decide, converges.2 4 (by decide)⟩

/-- Under the plain form the leader can hold later entries of the conflicting term. The
next index then goes forward, from 3 to 5, and the exchange never ends. -/
theorem plain_matching_loops :
    PlainMatching (nodeOf [1, 1, 1, 2]).log (nodeOf [1, 2]).log ∧
      TermsAscend (nodeOf [1, 1, 1, 2]).log ∧
      rejectHint (nodeOf [1, 2]).log (probe (nodeOf [1, 1, 1, 2]) peerTwo 3) = some 0 ∧
      backOff (nodeOf [1, 1, 1, 2]) (nodeOf [1, 2]) peerTwo 3 0 = 5 ∧
      ∀ rounds, exchange (nodeOf [1, 1, 1, 2]) (nodeOf [1, 2]) peerTwo rounds 3 = none := by
  have forward : backOff (nodeOf [1, 1, 1, 2]) (nodeOf [1, 2]) peerTwo 3 0 = 5 := by decide
  have back : backOff (nodeOf [1, 1, 1, 2]) (nodeOf [1, 2]) peerTwo 5 0 = 3 := by decide
  have atThree : rejectHint (nodeOf [1, 2]).log (probe (nodeOf [1, 1, 1, 2]) peerTwo 3) = some 0 := by
    decide
  have atFive : rejectHint (nodeOf [1, 2]).log (probe (nodeOf [1, 1, 1, 2]) peerTwo 5) = some 0 := by
    decide
  have loops : ∀ rounds, exchange (nodeOf [1, 1, 1, 2]) (nodeOf [1, 2]) peerTwo rounds 3 = none ∧
      exchange (nodeOf [1, 1, 1, 2]) (nodeOf [1, 2]) peerTwo rounds 5 = none := by
    intro rounds
    induction rounds with
    | zero => exact ⟨rfl, rfl⟩
    | succ rounds ih =>
      constructor
      · rw [exchange, if_neg (by decide), atThree]
        dsimp only
        rw [forward]
        exact ih.2
      · rw [exchange, if_neg (by decide), atFive]
        dsimp only
        rw [back]
        exact ih.1
  refine ⟨?_, ?_, atThree, forward, fun rounds => (loops rounds).1⟩
  · intro i low _ _ high same k above _ first
    have iLow : 0 < i := low
    have iHigh : i ≤ 2 := high
    have kLow : 0 ≤ k := above
    revert same
    interval_cases i <;> interval_cases k <;> decide
  · intro i j low order high
    have above : 0 < i := low
    have below : j ≤ 4 := high
    have start : 0 < j := by omega
    interval_cases j <;> interval_cases i <;> decide

end Kynovo.Raft.BackOff
