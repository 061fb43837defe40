import Mathlib.Logic.Relation
import Kynovo.Raft.Frame
import Kynovo.Raft.Run

/-! What calls do to the log, the durability frontier and the hard state. Every
call is a sequence of edits: entries are appended, a suffix is cut with the
frontier lowered to the cut, a prefix is compacted, the log restarts at a
snapshot, or the hard state moves. The indexes at which existing entries may be
cut, and the moves of the hard state that may happen, are parameters; for a
call they are read off the state before it. -/
namespace Kynovo.Raft.NodeEdits
open Kynovo.Raft.Frame

/-! ## Hard state -/

/-- The generation a latch waits for, while it is set. -/
def latched (isSet : Bool) (gen : Nat) : Option Nat := if isSet then some gen else none

/-- Term and vote with their generations, the latches of deferred replies, and
the queued messages that expose them. -/
structure Hard where
  id : Int
  term : Int
  vote : Int
  candidate : Bool
  gen : Nat
  dirtyGen : Nat
  voteGen : Option Nat
  requestGen : Option Nat
  appendGen : Option Nat
  rejectGen : Option Nat
  exposing : List PeerMessage
  confirm : Int

def hard (r : Node) : Hard where
  id := r.cfg.id
  term := r.currentTerm
  vote := r.votedFor
  candidate := r.state == .candidate
  gen := r.persistGen
  dirtyGen := r.termDirtyGen
  voteGen := latched r.deferredVote.response r.deferredVote.gen
  requestGen := latched r.deferredVoteRequest.pending r.deferredVoteRequest.gen
  appendGen := latched r.deferredAppend.response r.deferredAppend.gen
  rejectGen := latched r.deferredReject.pending r.deferredReject.gen
  exposing := r.msgs.filter gated
  confirm := r.durableConfirm

/-- The hard state stays, but latches may be dropped and candidacy may end. -/
structure Quiet (r r' : Node) : Prop where
  id : (hard r').id = (hard r).id
  term : (hard r').term = (hard r).term
  vote : (hard r').vote = (hard r).vote
  candidate : (hard r').candidate = true → (hard r).candidate = true
  gen : (hard r').gen = (hard r).gen
  dirtyGen : (hard r').dirtyGen = (hard r).dirtyGen
  voteGen : (hard r').voteGen = none ∨ (hard r').voteGen = (hard r).voteGen
  requestGen : (hard r').requestGen = none ∨ (hard r').requestGen = (hard r).requestGen
  appendGen : (hard r').appendGen = none ∨ (hard r').appendGen = (hard r).appendGen
  rejectGen : (hard r').rejectGen = none ∨ (hard r').rejectGen = (hard r).rejectGen
  exposing : (hard r').exposing = (hard r).exposing
  confirm : (hard r').confirm ≤ (hard r).confirm

theorem Quiet.of_hard {r r' : Node} (same : hard r' = hard r) : Quiet r r' := by
  constructor <;> simp [same]

/-- Candidacy may end. -/
theorem Quiet.of_rest {r r' : Node} (same : hard r' = { hard r with candidate := r'.state == .candidate })
    (standing : r'.state = .candidate → r.state = .candidate) : Quiet r r' where
  id := by rw [same]
  term := by rw [same]
  vote := by rw [same]
  candidate := fun still => by
    simp only [hard, beq_iff_eq] at still ⊢
    exact standing still
  gen := by rw [same]
  dirtyGen := by rw [same]
  voteGen := .inr (by rw [same])
  requestGen := .inr (by rw [same])
  appendGen := .inr (by rw [same])
  rejectGen := .inr (by rw [same])
  exposing := by rw [same]
  confirm := by rw [same]

theorem Quiet.trans {a b c : Node} (first : Quiet a b) (second : Quiet b c) : Quiet a c where
  id := second.id.trans first.id
  term := second.term.trans first.term
  vote := second.vote.trans first.vote
  candidate := fun standing => first.candidate (second.candidate standing)
  gen := second.gen.trans first.gen
  dirtyGen := second.dirtyGen.trans first.dirtyGen
  voteGen := second.voteGen.elim .inl (fun same => same ▸ first.voteGen)
  requestGen := second.requestGen.elim .inl (fun same => same ▸ first.requestGen)
  appendGen := second.appendGen.elim .inl (fun same => same ▸ first.appendGen)
  rejectGen := second.rejectGen.elim .inl (fun same => same ▸ first.rejectGen)
  exposing := second.exposing.trans first.exposing
  confirm := second.confirm.trans first.confirm

theorem latched_kept {isSet isSet' : Bool} {gen gen' : Nat}
    (kept : isSet' = true → isSet = true ∧ gen' = gen) :
    latched isSet' gen' = none ∨ latched isSet' gen' = latched isSet gen := by
  cases isSet' with
  | false => exact .inl rfl
  | true =>
    obtain ⟨rfl, rfl⟩ := kept rfl
    exact .inr rfl

theorem Quiet.of_calm {r r' : Node} (calm : Calm r r') : Quiet r r' where
  id := calm.id
  term := calm.currentTerm
  vote := calm.votedFor
  candidate := fun standing => by
    simp only [hard, beq_iff_eq] at standing ⊢
    exact calm.standing standing
  gen := calm.persistGen
  dirtyGen := calm.termDirtyGen
  voteGen := latched_kept fun set => ⟨calm.vote set ▸ set, by rw [calm.vote set]⟩
  requestGen := latched_kept fun set => ⟨calm.voteRequest set ▸ set, by rw [calm.voteRequest set]⟩
  appendGen := latched_kept fun set => ⟨calm.append set ▸ set, by rw [calm.append set]⟩
  rejectGen := latched_kept fun set => ⟨calm.reject set ▸ set, by rw [calm.reject set]⟩
  exposing := calm.exposing
  confirm := calm.durableConfirm.le

/-- Which moves of the hard state a call may make: any at all, take a newer
term, stand for election with an acknowledgement still latched, cast a vote,
latch a grant, answer a snapshot before the term is durable, and release votes.
-/
structure Perm where
  moves : Prop
  newTerm : Prop
  stand : Prop
  vote : Prop
  latch : Prop
  install : Prop
  release : Prop

/-- Everything is permitted. -/
def Perm.all : Perm := ⟨True, True, True, True, True, True, True⟩

/-- The hard state stays. -/
def Perm.still : Perm := ⟨False, True, True, True, True, True, True⟩

class Moving (perm : Perm) : Prop where
  moves : perm.moves

instance : Moving Perm.all := ⟨trivial⟩

/-- A message that reports on the log: its term is the node's, and a success
covers nothing above the confirmed index. -/
def Reports (r : Node) (message : PeerMessage) : Prop :=
  ∃ result, message.rpc = .appendEntriesResult result ∧ result.term = r.currentTerm ∧
    (result.success = true → result.lastLogIndex ≤ r.durableConfirm)

def Due (r : Node) (gen : Option Nat) : Prop := ∃ g, gen = some g ∧ g ≤ r.persistGen

inductive HardMove (perm : Perm) (r r' : Node) : Prop where
  /-- to a newer term, or out of office in this one -/
  | stepDown (term : Int)
      (newer : term = r.currentTerm ∨ (r.currentTerm < term ∧ term ≤ termMax ∧ perm.newTerm))
      (same : hard r' = { hard r with
        term
        vote := 0
        candidate := false
        dirtyGen := r.nextGen
        voteGen := none
        requestGen := none
        appendGen := none })
  | stand (permitted : perm.newTerm) (settled : (hard r).appendGen = none ∨ perm.stand)
      (inRange : r.currentTerm < termMax) (candidate : Bool) (requestGen : Option Nat)
      (fresh : candidate = true → requestGen = some r.nextGen)
      (same : hard r' = { hard r with
        term := r.currentTerm + 1
        vote := r.cfg.id
        candidate
        dirtyGen := r.nextGen
        voteGen := none
        requestGen })
  | grant (candidateId : Int) (valid : 0 < candidateId)
      (free : r.votedFor = 0 ∨ r.votedFor = candidateId)
      (first : r.votedFor = candidateId ∨ perm.vote) (permitted : perm.latch)
      (same : hard r' = { hard r with
        vote := candidateId
        voteGen := some r.nextGen })
  | latchAppend (gen : Nat) (fresh : gen = r.nextGen ∨ (hard r).appendGen = some gen)
      (same : hard r' = { hard r with appendGen := some gen })
  | latchReject (same : hard r' = { hard r with rejectGen := some r.nextGen })
  | report (message : PeerMessage) (reports : Reports r message)
      (opened : r.termDirtyGen ≤ r.persistGen ∨ Due r (hard r).appendGen ∨ Due r (hard r).rejectGen)
      (appendGen rejectGen : Option Nat) (append : appendGen = none ∨ appendGen = (hard r).appendGen)
      (reject : rejectGen = none ∨ rejectGen = (hard r).rejectGen)
      (same : hard r' = { hard r with
        appendGen
        rejectGen
        exposing := (hard r).exposing ++ [message] })
  | install (message : PeerMessage) (opened : r.termDirtyGen ≤ r.persistGen ∨ perm.install)
      (shape : ∃ last, message.rpc = .installSnapshotResult ⟨r.currentTerm, last⟩)
      (same : hard r' = { hard r with exposing := (hard r).exposing ++ [message] })
  | releaseVote (message : PeerMessage) (permitted : perm.release) (due : Due r (hard r).voteGen)
      (shape : message.rpc = .requestVoteResult ⟨r.currentTerm, true, false⟩)
      (same : hard r' = { hard r with
        voteGen := none
        exposing := (hard r).exposing ++ [message] })
  | releaseRequest (messages : List PeerMessage) (permitted : perm.release) (due : Due r (hard r).requestGen)
      (standing : (hard r).candidate = true)
      (shape : ∀ message ∈ messages, message.rpc = .requestVote (voteRequest r false))
      (same : hard r' = { hard r with
        requestGen := none
        exposing := (hard r).exposing ++ messages })
  /-- never in a node whose term is in range -/
  | beyond (outOfRange : termMax < r.currentTerm) (id : (hard r').id = (hard r).id)
      (gen : (hard r').gen = (hard r).gen) (exposing : (hard r').exposing = (hard r).exposing)
      (confirm : (hard r').confirm = (hard r).confirm)

/-! ## Edits -/

/-- The frontier stays. -/
def SameFrontier (r r' : Node) : Prop :=
  r'.durableIndex = r.durableIndex ∧ r'.durableConfirm = r.durableConfirm ∧
    r'.persistSyncedIndex = r.persistSyncedIndex

/-- The frontier is lowered to an index. -/
def Clamped (r r' : Node) (idx : Int) : Prop :=
  r'.durableIndex = min r.durableIndex idx ∧ r'.durableConfirm = min r.durableConfirm idx ∧
    r'.persistSyncedIndex = min r.persistSyncedIndex idx

inductive LogEdit (cuts : Int → Prop) (r r' : Node) : Prop where
  | same (log : r'.log = r.log) (frontier : SameFrontier r r')
  | append (new : List Entry) (log : r'.log = { r.log with entries := r.log.entries ++ new })
      (frontier : SameFrontier r r')
  | trim (log : r'.log = r.log) (frontier : Clamped r r' (raftLogLastIndex r.log))
  | cut (idx : Int) (allowed : cuts idx) (above : r.log.lastIncludedIndex ≤ idx)
      (log : raftLogTruncate r.log idx = some r'.log) (frontier : Clamped r r' idx)
  | compact (idx term : Int) (log : raftLogCompactPrefix r.log idx term = some r'.log)
      (frontier : SameFrontier r r')
  | reset (idx term : Int) (allowed : cuts idx) (above : r.log.lastIncludedIndex ≤ idx)
      (log : r'.log = ⟨[], idx, term, r.log.chunkSize⟩) (frontier : Clamped r r' idx)

/-- The log is edited while the hard state stays, or the hard state moves while
the log stays. -/
inductive Edit (cuts : Int → Prop) (perm : Perm) (r r' : Node) : Prop where
  | log (edit : LogEdit cuts r r') (quiet : Quiet r r')
  | hard (permitted : perm.moves) (log : r'.log = r.log) (frontier : SameFrontier r r')
      (move : HardMove perm r r')

/-- A sequence of edits. -/
def Edits (cuts : Int → Prop) (perm : Perm) (r r' : Node) : Prop :=
  Relation.ReflTransGen (Edit cuts perm) r r'

variable {cuts : Int → Prop} {perm : Perm} {r r' : Node}

theorem Edits.refl (r : Node) : Edits cuts perm r r := Relation.ReflTransGen.refl

theorem Edits.single (edit : Edit cuts perm r r') : Edits cuts perm r r' :=
  Relation.ReflTransGen.single edit

theorem Edits.trans {a b c : Node} (first : Edits cuts perm a b) (second : Edits cuts perm b c) :
    Edits cuts perm a c := Relation.ReflTransGen.trans first second

theorem Edits.of_calm (calm : Calm r r') : Edits cuts perm r r' :=
  .single (.log (.same calm.log ⟨calm.durableIndex, calm.durableConfirm, calm.persistSyncedIndex⟩)
    (.of_calm calm))

theorem Edits.of_append (new : List Entry)
    (log : r'.log = { r.log with entries := r.log.entries ++ new })
    (frontier : SameFrontier r r') (quiet : Quiet r r') : Edits cuts perm r r' :=
  .single (.log (.append new log frontier) quiet)

/-- A change of fields outside the log, the frontier and the hard state. -/
theorem Edits.of_same (log : r'.log = r.log) (frontier : SameFrontier r r')
    (same : Kynovo.Raft.NodeEdits.hard r' = Kynovo.Raft.NodeEdits.hard r) : Edits cuts perm r r' :=
  .single (.log (.same log frontier) (.of_hard same))

theorem Edits.of_move [Moving perm] (log : r'.log = r.log) (frontier : SameFrontier r r')
    (move : HardMove perm r r') : Edits cuts perm r r' :=
  .single (.hard Moving.moves log frontier move)

/-- Edits that may not move the hard state leave it in place. -/
theorem Edits.quiet (edits : Edits cuts .still r r') : Quiet r r' := by
  induction edits with
  | refl => exact .of_hard rfl
  | tail _ edit ih =>
    cases edit with
    | log _ quiet => exact ih.trans quiet
    | hard permitted _ _ _ => exact permitted.elim

theorem clamped_quiet (r : Node) (log : Log) (idx : Int) :
    Quiet r (raftDurableClamp { r with log } idx) where
  id := rfl
  term := rfl
  vote := rfl
  candidate := id
  gen := rfl
  dirtyGen := rfl
  voteGen := .inr rfl
  requestGen := .inr rfl
  appendGen := .inr rfl
  rejectGen := .inr rfl
  exposing := rfl
  confirm := min_le_left _ _

/-- Cutting the log at an index that is allowed. -/
theorem raftLogCut_edits (r : Node) (idx : Int) (allowed : cuts idx) :
    Edits cuts perm r (raftLogCut r idx) := by
  unfold raftLogCut
  split
  · exact .refl r
  · rename_i log truncated
    have above : r.log.lastIncludedIndex ≤ idx := by
      unfold raftLogTruncate at truncated
      split at truncated
      · cases truncated
      · omega
    exact .single (.log (.cut idx allowed above truncated ⟨rfl, rfl, rfl⟩)
      (clamped_quiet r log idx))

/-- Cutting back what was just appended only trims the frontier. -/
theorem undo_edits (r appended : Node) (entry : Entry)
    (log : appended.log = raftLogAppend r.log entry) (frontier : SameFrontier r appended)
    (quiet : Quiet r appended) :
    Edits cuts perm r (raftLogCut appended (raftLogLastIndex r.log)) := by
  have whole : raftLogTruncate appended.log (raftLogLastIndex r.log) = some r.log := by
    rw [log]
    simp [raftLogTruncate, raftLogAppend, raftLogLastIndex]
  obtain ⟨index, confirm, synced⟩ := frontier
  have cutQuiet := quiet.trans (clamped_quiet appended r.log (raftLogLastIndex r.log))
  unfold raftLogCut
  rw [whole]
  refine .single (.log (.trim rfl ⟨?_, ?_, ?_⟩) cutQuiet)
  · simp only [raftDurableClamp, index]
  · simp only [raftDurableClamp, confirm]
  · simp only [raftDurableClamp, synced]

/-! ## Elections -/

section Moves
variable [Moving perm]

omit [Moving perm] in
/-- After the fields are reset, a step-down only reports results. -/
theorem stepDown_flushed (r : Node) (term newLeaderId : Int) (inRange : termOutOfRange term = false) :
    Edits cuts perm (stepDownFields r term newLeaderId) (raftStepDown r term newLeaderId) := by
  have flushed : Edits cuts perm (stepDownFields r term newLeaderId) _ :=
    .of_calm (raftFlushClientResults_calm _ .redirect)
  unfold raftStepDown
  simp only [inRange, Bool.false_eq_true, if_false]
  have unread : ∀ node : Node, Edits cuts perm node { node with readBarrierGen := 0 } :=
    fun _ => .of_same rfl ⟨rfl, rfl, rfl⟩ rfl
  exact flushed.trans ((unread _).trans (.of_calm (emitResults_calm ..)))

theorem termMax_le {term : Int} (inRange : termOutOfRange term = false) : term ≤ termMax := by
  simp only [termOutOfRange, decide_eq_false_iff_not] at inRange
  omega

theorem raftStepDown_edits (r : Node) (term newLeaderId : Int) (ordered : r.currentTerm ≤ term)
    (takes : r.currentTerm < term → termOutOfRange term = false → perm.newTerm) :
    Edits cuts perm r (raftStepDown r term newLeaderId) := by
  cases inRange : termOutOfRange term with
  | true =>
    have stays : raftStepDown r term newLeaderId = r := by simp [raftStepDown, inRange]
    rw [stays]
    exact .refl r
  | false =>
    have newer : term = r.currentTerm ∨
        (r.currentTerm < term ∧ term ≤ termMax ∧ perm.newTerm) := by
      rcases ordered.lt_or_eq with above | same
      · exact .inr ⟨above, termMax_le inRange, takes above inRange⟩
      · exact .inl same.symm
    have fields : Edits cuts perm r (stepDownFields r term newLeaderId) :=
      .of_move rfl ⟨rfl, rfl, rfl⟩ (.stepDown term newer rfl)
    exact fields.trans (stepDown_flushed r term newLeaderId inRange)

theorem raftStepDown_log (r : Node) (term newLeaderId : Int) :
    (raftStepDown r term newLeaderId).log = r.log := by
  unfold raftStepDown
  split
  · rfl
  · have flushed := (raftFlushClientResults_calm (stepDownFields r term newLeaderId) .redirect).log
    exact (emitResults_calm ..).log.trans flushed

/-- The node may stand: it is no learner and terms are left. -/
def mayStand (r : Node) : Bool :=
  !raftIsLearner r.config.learners r.cfg.id && decide (r.currentTerm < termMax)

theorem raftBecomeCandidate_edits (r : Node) (takes : mayStand r = true → perm.newTerm)
    (settled : mayStand r = true → r.deferredAppend.response = true → perm.stand) :
    Edits cuts perm r (raftBecomeCandidate r).1 := by
  unfold raftBecomeCandidate
  split
  · exact .refl r
  · rename_i voter
    split
    · exact .refl r
    · rename_i terms
      have may : mayStand r = true := by
        simp only [mayStand, Bool.and_eq_true, Bool.not_eq_true', decide_eq_true_eq]
        exact ⟨by simpa using voter, by omega⟩
      have latch : (hard r).appendGen = none ∨ perm.stand := by
        cases set : r.deferredAppend.response with
        | false => exact .inl (by simp [hard, latched, set])
        | true => exact .inr (settled may set)
      dsimp only
      split
      · -- the no-op is appended first, then the hard state moves
        have appended : Edits cuts perm r { r with log := (leadAlone (candidateFields r)).log } :=
          .of_append [storedEntry (noopEntry (r.currentTerm + 1))] rfl ⟨rfl, rfl, rfl⟩ (.of_hard rfl)
        exact appended.trans (.of_move rfl ⟨rfl, rfl, rfl⟩
          (.stand (takes may) latch (not_le.mp terms) false _ (fun standing => nomatch standing) rfl))
      · exact .of_move rfl ⟨rfl, rfl, rfl⟩
          (.stand (takes may) latch (not_le.mp terms) true _ (fun _ => rfl) rfl)

/-- Without voting peers a member of the configuration stands at once. -/
def standsAlone (r : Node) : Bool :=
  !raftHasVoterPeer r && raftMaskHas r.config.old r.cfg.id && mayStand r

theorem preVoteFields_voters (r : Node) : raftHasVoterPeer (preVoteFields r) = raftHasVoterPeer r := by
  simp [raftHasVoterPeer, preVoteFields, List.any_map, Function.comp_def]

theorem raftBroadcastVote_pre (r : Node) : hard (raftBroadcastVote r true) = hard r := by
  simp [hard, raftBroadcastVote, List.filter_append, List.filter_map, gated, voteRequest,
    Function.comp_def]

theorem raftStartPreVote_edits (r : Node) (takes : standsAlone r = true → perm.newTerm)
    (settled : standsAlone r = true → r.deferredAppend.response = true → perm.stand) :
    Edits cuts perm r (raftStartPreVote r).1 := by
  have fields : Edits cuts perm r (preVoteFields r) :=
    .single (.log (.same rfl ⟨rfl, rfl, rfl⟩) { Quiet.of_hard (r := r) rfl with requestGen := .inl rfl })
  have voters := preVoteFields_voters r
  unfold raftStartPreVote
  dsimp only
  split
  · rename_i alone
    split
    · rename_i member
      have stands : mayStand (preVoteFields r) = true → standsAlone r = true := by
        intro may
        have same : mayStand (preVoteFields r) = mayStand r := rfl
        simp only [standsAlone, Bool.and_eq_true]
        exact ⟨⟨by rw [← voters]; exact alone, member⟩, same ▸ may⟩
      exact fields.trans (raftBecomeCandidate_edits _ (fun may => takes (stands may))
        (fun may => settled (stands may)))
    · exact fields
  · exact fields.trans (.of_same rfl ⟨rfl, rfl, rfl⟩ (raftBroadcastVote_pre _))

end Moves

/-! ## Configuration entries -/

/-- An appended configuration is put in force, or cut back when it is refused. -/
theorem apply_or_undo {appended applied : Node} {entry : Entry} (r : Node)
    (calm : Calm appended applied) (log : appended.log = raftLogAppend r.log entry)
    (frontier : SameFrontier r appended) (same : hard appended = hard r) :
    Edits cuts perm r applied ∧ Edits cuts perm r (raftLogCut applied (raftLogLastIndex r.log)) := by
  obtain ⟨index, confirm, synced⟩ := frontier
  have quiet : Quiet r appended := .of_hard same
  refine ⟨Edits.trans (.of_append [storedEntry entry] log ⟨index, confirm, synced⟩ quiet)
    (.of_calm calm), ?_⟩
  exact undo_edits r applied entry (calm.log.trans log)
    ⟨calm.durableIndex.trans index, calm.durableConfirm.trans confirm,
      calm.persistSyncedIndex.trans synced⟩ (quiet.trans (.of_calm calm))

theorem appendFinal_edits (r : Node) (voters : List Int) : Edits cuts perm r (appendFinal r voters).1 := by
  have calm := raftApplyConfigFromLog_calm (addFinal r voters)
  unfold appendFinal
  split
  · rename_i applied shape
    rw [shape] at calm
    exact (apply_or_undo r calm rfl ⟨rfl, rfl, rfl⟩ rfl).1.trans (.of_same rfl ⟨rfl, rfl, rfl⟩ rfl)
  · rename_i refused rc _ shape
    rw [shape] at calm
    exact (apply_or_undo r calm rfl ⟨rfl, rfl, rfl⟩ rfl).2.trans (.of_same rfl ⟨rfl, rfl, rfl⟩ rfl)

theorem raftFinalizeJoint_edits (r : Node) (jointIdx : Int) (cmNew : List Int) :
    Edits cuts perm r (raftFinalizeJoint r jointIdx cmNew).1 := by
  have final : Edits cuts perm r (appendFinal r cmNew).1 := appendFinal_edits r cmNew
  unfold raftFinalizeJoint
  dsimp only
  split
  · refine Edits.trans ?_ (.of_calm (raftApplyConfigFromLog_calm _))
    exact .of_same rfl ⟨rfl, rfl, rfl⟩ rfl
  · split
    · rename_i shape
      rw [shape] at final
      exact final.trans (.of_same rfl ⟨rfl, rfl, rfl⟩ rfl)
    · exact final

theorem raftMaybeFinalizeJoint_edits (r : Node) : Edits cuts perm r (raftMaybeFinalizeJoint r).1 := by
  unfold raftMaybeFinalizeJoint
  split
  · exact .refl r
  · split
    · exact .refl r
    · split
      · exact .refl r
      · split
        · exact .refl r
        · split
          · exact .refl r
          · exact raftFinalizeJoint_edits ..

theorem settleJoint_edits (r : Node) : Edits cuts perm r (settleJoint r) := by
  unfold settleJoint
  split
  · exact .refl r
  · dsimp only
    split
    · split
      · exact appendFinal_edits ..
      · exact .refl r
    · split
      · exact appendFinal_edits ..
      · split
        · exact .of_same rfl ⟨rfl, rfl, rfl⟩ rfl
        · exact .refl r

theorem raftBecomeLeader_edits (r : Node) : Edits cuts perm r (raftBecomeLeader r) := by
  have fields : Edits cuts perm r (leaderFields r) :=
    .of_append [storedEntry (noopEntry r.currentTerm)] rfl ⟨rfl, rfl, rfl⟩
      (.of_rest rfl (fun standing => nomatch standing))
  exact fields.trans (settleJoint_edits _)

theorem raftCommitConfigEntry_edits (r : Node) (cookie : Nat) :
    Edits cuts perm r (raftCommitConfigEntry r cookie).1 := by
  have calm := (Calm.foldl _ finishPromoted_calm r.config.pendingNew (addChange r)).trans
    (raftApplyConfigFromLog_calm _)
  unfold raftCommitConfigEntry
  dsimp only
  split
  · rename_i applied shape
    rw [shape] at calm
    exact (apply_or_undo r calm rfl ⟨rfl, rfl, rfl⟩ rfl).1.trans (.of_same rfl ⟨rfl, rfl, rfl⟩ rfl)
  · rename_i refused rc _ shape
    rw [shape] at calm
    exact (apply_or_undo r calm rfl ⟨rfl, rfl, rfl⟩ rfl).2.trans
      (.of_calm (raftConfigPendingOnlyClear_calm _))

theorem raftMaybeAdvanceReconfig_edits (r : Node) :
    Edits cuts perm r (raftMaybeAdvanceReconfig r).1 := by
  unfold raftMaybeAdvanceReconfig
  split
  · exact .refl r
  · split
    · rename_i new learners _ _
      have committed : Edits cuts perm r
          (raftCommitConfigEntry (setPending r new learners) r.catchup.cookie).1 :=
        Edits.trans (.of_calm (setPending_calm r new learners)) (raftCommitConfigEntry_edits ..)
      split
      · rename_i shape
        rw [shape] at committed
        exact committed.trans (.of_same rfl ⟨rfl, rfl, rfl⟩ rfl)
      · exact committed
    · exact .of_same rfl ⟨rfl, rfl, rfl⟩ rfl
    · exact .refl r

theorem raftReconfig_edits (r : Node) (cookie : Nat) (ids : List Int) :
    Edits cuts perm r (raftReconfig r cookie ids).1 := by
  have admitted : Edits cuts perm r (admitChange r) := .of_calm (admitChange_calm r)
  unfold raftReconfig
  split
  · exact .refl r
  · split
    · exact .refl r
    · split
      · exact .of_calm (raftResultEmit_calm ..)
      · dsimp only
        split
        · exact admitted
        · split
          · split
            · exact admitted.trans (.of_calm (raftConfigPendingClear_calm _))
            · exact admitted.trans (Edits.trans (.of_calm (setPending_calm ..))
                (raftCommitConfigEntry_edits ..))
          · exact admitted.trans (.of_same rfl ⟨rfl, rfl, rfl⟩ rfl)

/-! ## The leader's tick -/

theorem catchupRound_edits (r : Node) (elapsedMs : Nat) : Edits cuts perm r (catchupRound r elapsedMs).1 := by
  have advanced : Edits cuts perm r (raftMaybeAdvanceReconfig r).1 := raftMaybeAdvanceReconfig_edits r
  unfold catchupRound
  split
  · exact .of_same rfl ⟨rfl, rfl, rfl⟩ rfl
  · split
    · split
      · split
        · split
          · rename_i shape
            rw [shape] at advanced
            exact advanced
          · rename_i shape
            rw [shape] at advanced
            exact advanced
        · exact .of_calm (raftDeferredCatchupAbort_calm r)
      · exact .of_same rfl ⟨rfl, rfl, rfl⟩ rfl
    · exact .of_same rfl ⟨rfl, rfl, rfl⟩ rfl

theorem tickCatchup_edits (r : Node) (elapsedMs : Nat) : Edits cuts perm r (tickCatchup r elapsedMs).1 := by
  unfold tickCatchup
  split
  · exact .refl r
  · have round : Edits cuts perm r (catchupRound { r with
        catchup.totalElapsed := raftElapsedAdd r.catchup.totalElapsed elapsedMs } elapsedMs).1 := by
      refine Edits.trans ?_ (catchupRound_edits ..)
      exact .of_same rfl ⟨rfl, rfl, rfl⟩ rfl
    split
    · rename_i shape
      rw [shape] at round
      exact round
    · rename_i shape
      rw [shape] at round
      split
      · exact round.trans (.of_calm (raftDeferredCatchupAbort_calm _))
      · exact round

theorem failAbandoned_calm (r : Node) : Calm r (failAbandoned r) :=
  (emitResults_calm ..).trans (.of_core rfl)

section Moves
variable [Moving perm]

theorem leaveTerm_term (r : Node) : r.currentTerm ≤ (leaveTerm r).currentTerm := by
  simp only [leaveTerm]
  split <;> omega

/-- Leaving the term and stepping down are one move. -/
theorem leave_edits (r : Node) (takes : perm.newTerm) :
    Edits cuts perm r (raftStepDown (leaveTerm r) (leaveTerm r).currentTerm 0) := by
  have ordered := leaveTerm_term r
  cases inRange : termOutOfRange (leaveTerm r).currentTerm with
  | true =>
    have stays : raftStepDown (leaveTerm r) (leaveTerm r).currentTerm 0 = leaveTerm r := by
      simp [raftStepDown, inRange]
    have outOfRange : termMax < r.currentTerm := by
      have term : (leaveTerm r).currentTerm =
          if r.currentTerm < termMax then r.currentTerm + 1 else r.currentTerm := rfl
      simp only [termOutOfRange, decide_eq_true_eq] at inRange
      split at term <;> omega
    rw [stays]
    exact .of_move rfl ⟨rfl, rfl, rfl⟩ (.beyond outOfRange rfl rfl rfl rfl)
  | false =>
    have newer : (leaveTerm r).currentTerm = r.currentTerm ∨ (r.currentTerm < (leaveTerm r).currentTerm ∧
        (leaveTerm r).currentTerm ≤ termMax ∧ perm.newTerm) := by
      rcases ordered.lt_or_eq with above | same
      · exact .inr ⟨above, termMax_le inRange, takes⟩
      · exact .inl same.symm
    have fields : Edits cuts perm r (stepDownFields (leaveTerm r) (leaveTerm r).currentTerm 0) :=
      .of_move rfl ⟨rfl, rfl, rfl⟩ (.stepDown _ newer rfl)
    exact fields.trans (stepDown_flushed _ _ 0 inRange)

theorem abortJoint_edits (r : Node) (allowed : cuts (r.config.index - 1)) (takes : perm.newTerm) :
    Edits cuts perm r (abortJoint r) := by
  have failed : Edits cuts perm r (failAbandoned r) := .of_calm (failAbandoned_calm r)
  have cut := failed.trans (raftLogCut_edits (failAbandoned r) (r.config.index - 1) allowed)
  exact (cut.trans (leave_edits _ takes)).trans (.of_calm (raftApplyConfigFromLog_calm _))

theorem tickLead_edits (r : Node) (elapsedMs : Nat) : Edits cuts perm r (tickLead r elapsedMs) := by
  have quorum : Edits cuts perm r (tickReadRound (tickContact (tickJointElapsed r elapsedMs))) :=
    .of_calm ((tickJointElapsed_calm r elapsedMs).trans
      ((tickContact_calm _).trans (tickReadRound_calm _)))
  unfold tickLead
  dsimp only
  split
  · exact quorum.trans (raftStepDown_edits _ _ 0 (le_refl _) (fun above => absurd above (lt_irrefl _)))
  · have committed := quorum.trans (.of_calm (raftAdvanceCommit_calm _))
    have finalized := committed.trans (raftMaybeFinalizeJoint_edits _)
    split
    · rename_i shape
      rw [shape] at finalized
      exact finalized.trans (.of_calm (tickSend_calm ..))
    · rename_i shape
      rw [shape] at finalized
      exact finalized

/-- Where the leader's tick cuts the log: below a joint entry it gives up. -/
def tickCut (r : Node) (elapsedMs : Nat) : Option Int :=
  match tickCatchup r elapsedMs with
  | (_, true) => none
  | (r, false) => if jointAbortDue r elapsedMs then some (r.config.index - 1) else none

theorem raftLeaderTick_edits (r : Node) (elapsedMs : Nat)
    (allowed : ∀ idx, tickCut r elapsedMs = some idx → cuts idx ∧ perm.newTerm) :
    Edits cuts perm r (raftLeaderTick r elapsedMs) := by
  have caught : Edits cuts perm r (tickCatchup r elapsedMs).1 := tickCatchup_edits r elapsedMs
  unfold tickCut at allowed
  unfold raftLeaderTick
  split
  · rename_i shape
    rw [shape] at caught
    exact caught
  · rename_i next shape
    rw [shape] at caught allowed
    split
    · rename_i due
      obtain ⟨cut, takes⟩ := allowed (next.config.index - 1) (by simp [due])
      exact caught.trans (abortJoint_edits next cut takes)
    · exact caught.trans (tickLead_edits ..)

/-! ## raft_advance -/

/-- An election timeout makes a node without voting peers stand. -/
def campaignStands (r : Node) : Bool :=
  r.state ≠ .leader && decide (r.timers.electionDeadline ≤ r.timers.electionElapsed) && standsAlone r

theorem campaign_edits (r : Node) (takes : campaignStands r = true → perm.newTerm)
    (settled : campaignStands r = true → r.deferredAppend.response = true → perm.stand) :
    Edits cuts perm r (campaign r).1 := by
  unfold campaign
  split
  · rename_i due
    have stands : standsAlone r = true → campaignStands r = true := by
      intro alone
      simpa [campaignStands, alone] using due
    exact raftStartPreVote_edits r (fun alone => takes (stands alone))
      (fun alone => settled (stands alone))
  · exact .refl r

/-- The state in which `raft_advance` looks at the election timer, if it gets
there. -/
def campaignState (r : Node) : Option Node :=
  match reapplyStale r with
  | (r, 0) => some r
  | (_, _) => none

/-- The state in which `raft_advance` runs the leader's tick, if it gets there. -/
def tickState (r : Node) : Option Node :=
  (campaignState r).bind (fun r =>
    match campaign r with
    | (r, 0) => if r.state = .leader then some r else none
    | (_, _) => none)

theorem raftAdvanceInner_edits (r : Node) (elapsedMs : Nat)
    (allowed : ∀ leader, tickState r = some leader →
      ∀ idx, tickCut leader elapsedMs = some idx → cuts idx ∧ perm.newTerm)
    (stands : ∀ timed, campaignState r = some timed → campaignStands timed = true →
      perm.newTerm ∧ (timed.deferredAppend.response = true → perm.stand)) :
    Edits cuts perm r (raftAdvanceInner r elapsedMs) := by
  have stale : Edits cuts perm r (reapplyStale r).1 := .of_calm (reapplyStale_calm r)
  unfold raftAdvanceInner
  split
  · rename_i applied appliedShape
    rw [appliedShape] at stale
    have timed : campaignState r = some applied := by simp [campaignState, appliedShape]
    have campaigned := stale.trans (campaign_edits applied (fun due => (stands applied timed due).1)
      (fun due => (stands applied timed due).2))
    split
    · rename_i elected electedShape
      rw [electedShape] at campaigned
      have ticked : Edits cuts perm elected (tickIfLeader elected elapsedMs) := by
        unfold tickIfLeader
        split
        · rename_i leads
          have reached : tickState r = some elected := by
            simp [tickState, timed, electedShape, leads]
          exact raftLeaderTick_edits elected elapsedMs (allowed elected reached)
        · exact .refl elected
      exact (campaigned.trans ticked).trans
        (.of_calm ((raftEnqueueApply_calm _).trans (raftCheckBarriers_calm _)))
    · rename_i refusedShape
      rw [refusedShape] at campaigned
      exact campaigned
  · rename_i refusedShape
    rw [refusedShape] at stale
    exact stale

theorem due_of_latched {isSet : Bool} {gen : Nat} (set : isSet = true) (reached : gen ≤ r.persistGen) :
    Due r (latched isSet gen) := ⟨gen, by simp [latched, set], reached⟩

theorem releaseVote_edits (r : Node) (releases : perm.release) : Edits cuts perm r (releaseVote r) := by
  unfold releaseVote
  split
  · rename_i due
    simp only [Bool.and_eq_true, decide_eq_true_eq] at due
    refine .of_move rfl ⟨rfl, rfl, rfl⟩
      (.releaseVote ⟨r.cfg.id, r.deferredVote.target, .requestVoteResult ⟨r.currentTerm, true, false⟩⟩
        releases (due_of_latched due.1 due.2) rfl ?_)
    simp only [hard, sendMessage, List.filter_append]
    rfl
  · exact .refl r

theorem releaseAppend_edits (r : Node) : Edits cuts perm r (releaseAppend r) := by
  unfold releaseAppend
  split
  · rename_i due
    simp only [Bool.and_eq_true, decide_eq_true_eq] at due
    have reported : Edits cuts perm r (reportAppend r) := by
      unfold reportAppend
      split
      · have reports : Reports r ⟨r.cfg.id, r.deferredAppend.target, .appendEntriesResult
            ⟨r.currentTerm, 0, appendReport r, 0, 0, r.deferredAppend.readContext, true⟩⟩ := by
          refine ⟨_, rfl, rfl, fun _ => ?_⟩
          simp only [appendReport]
          omega
        refine .of_move rfl ⟨rfl, rfl, rfl⟩ (.report _ reports
          (.inr (.inl (due_of_latched due.1 due.2))) _ _ (.inr rfl) (.inr rfl) ?_)
        simp only [hard, sendMessage, List.filter_append]
        rfl
      · exact .refl r
    refine reported.trans ?_
    unfold settleAppend
    split
    · exact .single (.log (.same rfl ⟨rfl, rfl, rfl⟩) { Quiet.of_hard (r := reportAppend r) rfl with
        appendGen := .inl rfl })
    · exact .refl _
  · exact .refl r

theorem releaseReject_edits (r : Node) : Edits cuts perm r (releaseReject r) := by
  unfold releaseReject
  split
  · rename_i due
    simp only [Bool.and_eq_true, decide_eq_true_eq] at due
    have reports : Reports r ⟨r.cfg.id, r.deferredReject.target, .appendEntriesResult
        ⟨r.currentTerm, r.deferredReject.hint, r.deferredReject.lastIndex,
          r.deferredReject.conflictTerm, r.deferredReject.conflictFirstIndex,
          r.deferredReject.readContext, false⟩⟩ := ⟨_, rfl, rfl, fun success => nomatch success⟩
    refine .of_move rfl ⟨rfl, rfl, rfl⟩ (.report _ reports
      (.inr (.inr (due_of_latched due.1 due.2))) _ none (.inr rfl) (.inl rfl) ?_)
    simp only [hard, sendMessage, List.filter_append]
    rfl
  · exact .refl r

theorem releaseVoteRequest_edits (r : Node) (releases : perm.release) : Edits cuts perm r (releaseVoteRequest r) := by
  unfold releaseVoteRequest
  split
  · rename_i due
    simp only [Bool.and_eq_true, decide_eq_true_eq] at due
    refine .of_move rfl ⟨rfl, rfl, rfl⟩ (.releaseRequest ((r.peers.filter (fun peer => !peer.isLearner)).map
      (fun peer => ⟨r.cfg.id, peer.id, .requestVote (voteRequest r false)⟩)) releases
      (due_of_latched due.1.1 due.1.2) ?_ ?_ ?_)
    · simp [hard, due.2]
    · intro message member
      obtain ⟨peer, -, rfl⟩ := List.mem_map.mp member
      rfl
    · have exposed : ((r.peers.filter (fun peer => !peer.isLearner)).map (fun peer =>
          (⟨r.cfg.id, peer.id, .requestVote (voteRequest r false)⟩ : PeerMessage))).filter gated =
          (r.peers.filter (fun peer => !peer.isLearner)).map
            (fun peer => ⟨r.cfg.id, peer.id, .requestVote (voteRequest r false)⟩) := by
        simp [List.filter_map, gated, voteRequest, Function.comp_def]
      simp only [hard, raftBroadcastVote, List.filter_append, exposed]
      rfl
  · exact .refl r

theorem advanceReplies_edits (r : Node) (elapsedMs : Nat) (releases : perm.release) :
    Edits cuts perm r (advanceReplies r elapsedMs) := by
  have timed := (advanceTimers_calm r elapsedMs (r.state ≠ .leader)).trans
    ((expireFollowerRead_calm _ elapsedMs).trans (expireBarriers_calm _ elapsedMs))
  have transferred := timed.trans
    ((startFollowerRead_calm _).trans (advanceTransfer_calm _ elapsedMs))
  refine (Edits.of_calm transferred).trans ?_
  exact (((releaseVote_edits _ releases).trans (releaseAppend_edits _)).trans
    (releaseReject_edits _)).trans (releaseVoteRequest_edits _ releases)

omit [Moving perm] in
theorem advanceOutput_edits (r : Node) (phaseStopped : Bool) :
    Edits cuts perm r (advanceOutput r phaseStopped).1 := .of_same rfl ⟨rfl, rfl, rfl⟩ rfl

omit [Moving perm] in
theorem advanceDrain_edits (r : Node) (elapsedMs : Nat) :
    Edits cuts perm r (advanceDrain r elapsedMs).1 := by
  have drained := (advanceTimers_calm r elapsedMs true).trans
    ((raftEnqueueApply_calm _).trans (raftCheckBarriers_calm _))
  unfold advanceDrain
  dsimp only
  split
  · exact (Edits.of_calm (drained.trans (finishDrain_calm _))).trans (advanceOutput_edits ..)
  · exact (Edits.of_calm drained).trans (advanceOutput_edits ..)

/-- Where `raft_advance` cuts the log. -/
def advanceCut (r : Node) (elapsedMs : Nat) : Option Int :=
  (tickState (advanceReplies (enterPhase r) elapsedMs)).bind (fun leader => tickCut leader elapsedMs)

/-- The state in which `raft_advance` makes the node stand for election. -/
def advanceStands (r : Node) (elapsedMs : Nat) : Option Node :=
  (campaignState (advanceReplies (enterPhase r) elapsedMs)).filter campaignStands

theorem raftAdvance_edits (r : Node) (elapsedMs : Nat) (releases : perm.release)
    (allowed : ∀ idx, advanceCut r elapsedMs = some idx → cuts idx ∧ perm.newTerm)
    (stands : ∀ timed, advanceStands r elapsedMs = some timed →
      perm.newTerm ∧ (timed.deferredAppend.response = true → perm.stand)) :
    Edits cuts perm r (raftAdvance r elapsedMs).1 := by
  have entered : Edits cuts perm r (enterPhase r) := .of_calm (enterPhase_calm r)
  unfold raftAdvance
  dsimp only
  split
  · exact entered.trans (advanceDrain_edits ..)
  · exact entered
  · refine (entered.trans (advanceReplies_edits _ _ releases)).trans
      ((raftAdvanceInner_edits _ _ ?_ ?_).trans (advanceOutput_edits ..))
    · intro leader reached idx cut
      exact allowed idx (by simp [advanceCut, reached, cut])
    · intro timed reached due
      exact stands timed (by simp [advanceStands, reached, due])

/-! ## Receivers -/

/-- A term in range that is newer than the node's. -/
def newerTerm (r : Node) (term : Int) : Bool := decide (r.currentTerm < term) && !termOutOfRange term

theorem newerTerm_intro {term : Int} (newer : r.currentTerm < term)
    (inRange : termOutOfRange term = false) : newerTerm r term = true := by
  simp [newerTerm, newer, inRange]

/-- The messages that make the node a follower of a newer term. -/
def takesTerm (r : Node) (sender : Int) : Rpc → Bool
  | .requestVote rpc => raftIdValid sender && raftIdValid rpc.candidateId &&
      !(rpc.preVote && decide (r.timers.leaderContactElapsed < r.cfg.electionMinMs)) &&
      newerTerm r rpc.term
  | .requestVoteResult result => raftIdValid sender && (r.inPreVote || r.state == .candidate) &&
      newerTerm r result.term
  | .appendEntries rpc => raftIdValid sender && raftIdValid rpc.leaderId && newerTerm r rpc.term
  | .appendEntriesResult result => raftIdValid sender && r.state == .leader && newerTerm r result.term
  | .installSnapshot rpc => raftIdValid sender && raftIdValid rpc.leaderId &&
      decide (r.log.lastIncludedIndex ≤ rpc.snapshotLastIndex) && newerTerm r rpc.term
  | .installSnapshotResult result =>
    raftIdValid sender && r.state == .leader && newerTerm r result.term
  | .readIndex rpc => raftIdValid sender && r.state == .leader && newerTerm r rpc.term
  | .readIndexResult result => raftIdValid sender && r.followerRead.frozen != 0 &&
      result.context == r.followerRead.context && newerTerm r result.term
  | .timeoutNow rpc => raftIdValid sender && newerTerm r rpc.term

/-- The request is granted a real vote. -/
def grantsVote (r : Node) (sender : Int) (rpc : RequestVote) : Bool :=
  let adopted := adoptTerm r rpc.term 0
  raftIdValid sender && raftIdValid rpc.candidateId && !termOutOfRange rpc.term && !rpc.preVote &&
    decide (adopted.currentTerm ≤ rpc.term) &&
    (adopted.votedFor == 0 || adopted.votedFor == rpc.candidateId) && logOk adopted rpc

/-- The target of a transfer may take over. -/
def timeoutReaches (r : Node) (rpc : TimeoutNow) : Bool :=
  r.state == .follower && rpc.leaderId == r.leaderId &&
    raftLogLastIndex r.log == rpc.lastLogIndex &&
    raftLogTermAt r.log (raftLogLastIndex r.log) == rpc.lastLogTerm

/-- The messages that make the node stand for election. -/
def standsOn (r : Node) (sender : Int) : Rpc → Bool
  | .requestVoteResult result => raftIdValid sender && r.inPreVote && result.term == r.currentTerm &&
      (raftFindPeer r sender).isSome && result.preVote &&
      votesReached (markVote r sender result.voteGranted true) true && mayStand r
  | .timeoutNow rpc => raftIdValid sender && !termOutOfRange rpc.term &&
      decide (r.currentTerm ≤ rpc.term) &&
      timeoutReaches (adoptTerm r rpc.term rpc.leaderId) rpc &&
      mayStand (adoptTerm r rpc.term rpc.leaderId)
  | _ => false

/-- What a message may do to the hard state. -/
structure Permits (perm : Perm) (r : Node) (sender : Int) (rpc : Rpc) : Prop where
  takes : takesTerm r sender rpc = true → perm.newTerm
  stands : standsOn r sender rpc = true → perm.newTerm
  settled : standsOn r sender rpc = true → takesTerm r sender rpc = false →
    r.deferredAppend.response = true → perm.stand

theorem adoptTerm_edits (r : Node) (term leaderId : Int)
    (takes : newerTerm r term = true → perm.newTerm) :
    Edits cuts perm r (adoptTerm r term leaderId) := by
  unfold adoptTerm
  split
  · rename_i newer
    exact raftStepDown_edits r term leaderId newer.le
      (fun _ inRange => takes (newerTerm_intro newer inRange))
  · exact .refl r

theorem raftRecvRequestVote_edits (r : Node) (sender : Int) (rpc : RequestVote)
    (permits : Permits perm r sender (.requestVote rpc))
    (grants : grantsVote r sender rpc = true → perm.latch ∧
      ((adoptTerm r rpc.term 0).votedFor ≠ rpc.candidateId → perm.vote)) :
    Edits cuts perm r (raftRecvRequestVote r sender rpc).1 := by
  unfold raftRecvRequestVote
  split
  · exact .refl r
  · rename_i valid
    split
    · exact .refl r
    · rename_i contact
      simp only [Bool.or_eq_true, not_or, Bool.not_eq_true, Bool.not_eq_false'] at valid
      obtain ⟨⟨fromNode, fromCandidate⟩, inRange⟩ := valid
      have adopted : Edits cuts perm r (adoptTerm r rpc.term 0) := by
        refine adoptTerm_edits r rpc.term 0 (fun newer => permits.takes ?_)
        simp only [takesTerm, fromNode, fromCandidate, newer, Bool.and_true, Bool.true_and]
        simpa only [Bool.not_eq_true', Bool.not_eq_true] using contact
      dsimp only
      split
      · exact adopted
      · rename_i recent
        split
        · exact adopted
        · rename_i free
          split
          · exact adopted
          · rename_i upToDate
            split
            · refine adopted.trans (.of_same rfl ⟨rfl, rfl, rfl⟩ ?_)
              simp [hard, sendMessage, List.filter_append, gated]
            · rename_i real
              have granted : grantsVote r sender rpc = true := by
                simp only [grantsVote, fromNode, fromCandidate, inRange]
                simp only [Bool.and_eq_true, Bool.not_eq_true', decide_eq_true_eq, ne_eq, not_and,
                  not_not, Bool.not_eq_true, not_lt, Bool.not_eq_false] at recent free upToDate real
                simp only [Bool.not_false, Bool.true_and, Bool.and_eq_true, Bool.not_eq_true',
                  decide_eq_true_eq, Bool.or_eq_true, beq_iff_eq]
                exact ⟨⟨⟨real, recent⟩, or_iff_not_imp_left.mpr fun other => free ⟨real, other⟩⟩, upToDate⟩
              obtain ⟨latch, casts⟩ := grants granted
              have free : (adoptTerm r rpc.term 0).votedFor = 0 ∨
                  (adoptTerm r rpc.term 0).votedFor = rpc.candidateId := by
                simp only [grantsVote, Bool.and_eq_true, Bool.or_eq_true, beq_iff_eq] at granted
                exact granted.1.2
              have valid : 0 < rpc.candidateId := by simpa [raftIdValid] using fromCandidate
              refine adopted.trans (.of_move rfl ⟨rfl, rfl, rfl⟩
                (.grant rpc.candidateId valid free (or_iff_not_imp_left.mpr casts) latch rfl))

theorem countPreVote_edits (r : Node)
    (takes : votesReached r true = true → mayStand r = true → perm.newTerm)
    (settled : votesReached r true = true → mayStand r = true → r.deferredAppend.response = true →
      perm.stand) : Edits cuts perm r (countPreVote r) := by
  unfold countPreVote
  split
  · rename_i reached
    refine Edits.trans ?_ (raftBecomeCandidate_edits _ (takes reached) (settled reached))
    exact .of_same rfl ⟨rfl, rfl, rfl⟩ rfl
  · exact .refl r

omit [Moving perm] in
theorem countVote_edits (r : Node) : Edits cuts perm r (countVote r) := by
  unfold countVote
  split
  · exact raftBecomeLeader_edits r
  · exact .refl r

theorem raftRecvRequestVoteResult_edits (r : Node) (sender : Int) (result : RequestVoteResult)
    (permits : Permits perm r sender (.requestVoteResult result)) :
    Edits cuts perm r (raftRecvRequestVoteResult r sender result).1 := by
  have marked : ∀ preVote, Edits cuts perm r (markVote r sender result.voteGranted preVote) :=
    fun preVote => .of_calm (markVote_calm ..)
  unfold raftRecvRequestVoteResult
  split
  · exact .refl r
  · rename_i fromNode
    simp only [Bool.not_eq_true, Bool.not_eq_false'] at fromNode
    split
    · exact .refl r
    · rename_i electing
      split
      · rename_i newer
        refine raftStepDown_edits r result.term 0 newer.le (fun _ inRange => permits.takes ?_)
        simp only [takesTerm, fromNode, newerTerm_intro newer inRange, Bool.and_true, Bool.true_and]
        simp only [Bool.and_eq_true, Bool.not_eq_true', decide_eq_true_eq, not_and] at electing
        cases pre : r.inPreVote with
        | true => rfl
        | false => simpa using electing pre
      · rename_i notNewer
        split
        · exact .refl r
        · rename_i notOlder
          split
          · exact .refl r
          · rename_i known
            split
            · rename_i pre
              split
              · rename_i electing
                have stands : votesReached (markVote r sender result.voteGranted true) true = true →
                    mayStand (markVote r sender result.voteGranted true) = true →
                    standsOn r sender (.requestVoteResult result) = true := by
                  intro reached may
                  have same : mayStand (markVote r sender result.voteGranted true) = mayStand r := by
                    unfold markVote
                    split <;> rfl
                  have sameTerm : result.term = r.currentTerm := by omega
                  simp only [standsOn, fromNode, electing, sameTerm, pre, reached, ← same, may,
                    beq_self_eq_true, Bool.and_true]
                  simpa [Option.isSome_iff_ne_none, Option.isNone_iff_eq_none] using known
                have older : takesTerm r sender (.requestVoteResult result) = false := by
                  simp [takesTerm, newerTerm, notNewer]
                have latch : (markVote r sender result.voteGranted true).deferredAppend =
                    r.deferredAppend := by
                  unfold markVote
                  split <;> rfl
                refine (marked true).trans (countPreVote_edits _
                  (fun reached may => permits.stands (stands reached may)) (fun reached may set => ?_))
                rw [latch] at set
                exact permits.settled (stands reached may) older set
              · exact .refl r
            · split
              · exact .refl r
              · exact (marked false).trans (countVote_edits _)

/-- An open gate lets a report out at once. -/
theorem report_edits (r : Node) (target : Int) (result : AppendEntriesResult)
    (term : result.term = r.currentTerm)
    (bound : result.success = true → result.lastLogIndex ≤ r.durableConfirm)
    (opened : r.termDirtyGen ≤ r.persistGen) :
    Edits cuts perm r (sendMessage r target (.appendEntriesResult result)) := by
  refine .of_move rfl ⟨rfl, rfl, rfl⟩ (.report ⟨r.cfg.id, target, .appendEntriesResult result⟩
    ⟨result, rfl, term, bound⟩ (.inl opened) _ _ (.inr rfl) (.inr rfl) ?_)
  simp only [hard, sendMessage, List.filter_append]
  rfl

theorem answer_edits (r : Node) (target last : Int)
    (opened : r.termDirtyGen ≤ r.persistGen ∨ perm.install) :
    Edits cuts perm r (sendMessage r target (.installSnapshotResult ⟨r.currentTerm, last⟩)) := by
  refine .of_move rfl ⟨rfl, rfl, rfl⟩
    (.install ⟨r.cfg.id, target, .installSnapshotResult ⟨r.currentTerm, last⟩⟩ opened ⟨last, rfl⟩ ?_)
  simp only [hard, sendMessage, List.filter_append]
  rfl

theorem replyAppend_edits (r : Node) (rpc : AppendEntries) : Edits cuts perm r (replyAppend r rpc) := by
  unfold replyAppend
  split
  · rename_i opened
    simp only [Bool.and_eq_true, decide_eq_true_eq] at opened
    exact report_edits r r.leaderId _ rfl (fun _ => min_le_left _ _) opened.2
  · split
    · cases set : r.deferredAppend.response with
      | true =>
        refine .of_move rfl ⟨rfl, rfl, rfl⟩ (.latchAppend r.deferredAppend.gen (.inr ?_) ?_)
        · simp [hard, latched, set]
        · simp only [hard, latchAppend, set, if_true, latched]
      | false =>
        refine .of_move rfl ⟨rfl, rfl, rfl⟩ (.latchAppend r.nextGen (.inl rfl) ?_)
        simp only [hard, latchAppend, set, Bool.false_eq_true, if_false, latched, if_true]
    · exact .refl r

theorem acceptAppend_edits (r : Node) (rpc : AppendEntries) : Edits cuts perm r (acceptAppend r rpc).1 := by
  have applied : Edits cuts perm r (applyAppended r rpc).1 := .of_calm (applyAppended_calm r rpc)
  unfold acceptAppend
  split
  · rename_i shape
    rw [shape] at applied
    refine (applied.trans (.of_calm (followCommit_calm _ rpc))).trans
      (Edits.trans ?_ (replyAppend_edits ..))
    exact .of_same rfl ⟨rfl, rfl, rfl⟩ rfl
  · rename_i shape
    rw [shape] at applied
    exact applied

theorem replyFail_edits (r : Node) (rpc : AppendEntries) (hint : Int) :
    Edits cuts perm r (replyFail r rpc hint) := by
  unfold replyFail
  dsimp only
  split
  · exact .of_move rfl ⟨rfl, rfl, rfl⟩ (.latchReject rfl)
  · rename_i opened
    simp only [Bool.or_eq_true, decide_eq_true_eq, not_or, not_lt] at opened
    exact report_edits r r.leaderId _ rfl (fun success => nomatch success) opened.2

/-- Where the entries of a message cut a log. -/
def scanCut (log : Log) (rpc : AppendEntries) : Option Int :=
  match prevMismatch log rpc with
  | some _ => none
  | none =>
    match scanEntries log (rpc.prevLogIndex + 1) rpc.entries with
    | .splice cutTo _ => cutTo
    | _ => none

omit [Moving perm] in
theorem cutFor_edits (r : Node) (cutTo : Option Int) (allowed : ∀ idx, cutTo = some idx → cuts idx) :
    Edits cuts perm r (cutFor r cutTo) := by
  cases cutTo with
  | none => exact .refl r
  | some idx => exact raftLogCut_edits r idx (allowed idx rfl)

theorem appendToLog_edits (r : Node) (rpc : AppendEntries)
    (allowed : ∀ idx, scanCut r.log rpc = some idx → cuts idx) :
    Edits cuts perm r (appendToLog r rpc).1 := by
  unfold scanCut at allowed
  unfold appendToLog
  split
  · exact replyFail_edits ..
  · rename_i passes
    rw [passes] at allowed
    dsimp only at allowed
    split
    · exact .refl r
    · exact replyFail_edits ..
    · exact acceptAppend_edits ..
    · rename_i cutTo new shape
      rw [shape] at allowed
      have spliced : Edits cuts perm r { cutFor r cutTo with log := appendNew (cutFor r cutTo).log new } :=
        (cutFor_edits r cutTo allowed).trans (.of_append _ rfl ⟨rfl, rfl, rfl⟩ (.of_hard rfl))
      dsimp only
      split
      · exact spliced.trans (acceptAppend_edits ..)
      · exact spliced

/-- The message is taken for one of the term's leader. -/
def followsLeader (r : Node) (sender : Int) (rpc : AppendEntries) : Bool :=
  raftIdValid sender && raftIdValid rpc.leaderId && !termOutOfRange rpc.term &&
    (decide (r.currentTerm < rpc.term) || (r.currentTerm == rpc.term && r.state != .leader))

theorem adoptTerm_log (r : Node) (term leaderId : Int) : (adoptTerm r term leaderId).log = r.log := by
  unfold adoptTerm
  split
  · exact raftStepDown_log ..
  · rfl

theorem raftRecvAppendEntries_edits (r : Node) (sender : Int) (rpc : AppendEntries)
    (permits : Permits perm r sender (.appendEntries rpc))
    (allowed : followsLeader r sender rpc = true →
      ∀ idx, scanCut r.log rpc = some idx → cuts idx) :
    Edits cuts perm r (raftRecvAppendEntries r sender rpc).1 := by
  unfold raftRecvAppendEntries
  split
  · exact .refl r
  · rename_i valid
    simp only [Bool.or_eq_true, not_or, Bool.not_eq_true, Bool.not_eq_false'] at valid
    obtain ⟨⟨fromNode, fromLeader⟩, inRange⟩ := valid
    have adopted : Edits cuts perm r (adoptTerm r rpc.term rpc.leaderId) :=
      adoptTerm_edits r rpc.term rpc.leaderId
        (fun newer => permits.takes (by simp [takesTerm, fromNode, fromLeader, newer]))
    dsimp only
    split
    · exact adopted
    · rename_i recent
      split
      · exact adopted
      · rename_i follows
        have followed : Edits cuts perm r (followLeader (adoptTerm r rpc.term rpc.leaderId) rpc.leaderId) :=
          adopted.trans (.of_calm (followLeader_calm ..))
        refine followed.trans (appendToLog_edits _ rpc ?_)
        have logSame : (followLeader (adoptTerm r rpc.term rpc.leaderId) rpc.leaderId).log = r.log :=
          adoptTerm_log ..
        rw [logSame]
        refine allowed ?_
        simp only [followsLeader, fromNode, fromLeader, inRange, Bool.not_false, Bool.and_true,
          Bool.true_and, Bool.or_eq_true, decide_eq_true_eq, Bool.and_eq_true, beq_iff_eq,
          bne_iff_ne]
        by_cases newer : r.currentTerm < rpc.term
        · exact .inl newer
        · simp only [adoptTerm, newer, if_false] at recent follows
          exact .inr ⟨by omega, follows⟩

theorem recvReply_edits (r : Node) (sender term : Int) (handle : Peer → Node)
    (takes : (raftIdValid sender && r.state == .leader && newerTerm r term) = true → perm.newTerm)
    (handled : ∀ peer, Edits cuts perm r (handle peer)) :
    Edits cuts perm r (recvReply r sender term handle).1 := by
  unfold recvReply
  split
  · exact .refl r
  · rename_i fromNode
    split
    · exact .refl r
    · rename_i leads
      split
      · exact .refl r
      · split
        · rename_i newer
          refine raftStepDown_edits r term 0 newer.le (fun _ inRange => takes ?_)
          simp only [ne_eq, not_not] at leads
          simpa [newerTerm_intro newer inRange, leads] using fromNode
        · split
          · exact .refl r
          · split
            · exact .refl r
            · exact handled _

omit [Moving perm] in
/-- Peers are updated, and a voter's reply may commit. -/
theorem acked_edits (r : Node) (peers : List Peer) (isLearner : Bool) :
    Edits cuts perm r (if isLearner then { r with peers } else raftAdvanceCommit { r with peers }) := by
  have acked : Edits cuts perm r { r with peers } := .of_same rfl ⟨rfl, rfl, rfl⟩ rfl
  split
  · exact acked
  · exact acked.trans (.of_calm (raftAdvanceCommit_calm _))

/-- A snapshot that comes too late is answered at once. -/
def answersStale (r : Node) (sender : Int) (rpc : InstallSnapshot) : Bool :=
  raftIdValid sender && raftIdValid rpc.leaderId && !termOutOfRange rpc.term &&
    (decide (rpc.term < r.currentTerm) || decide (rpc.snapshotLastIndex < r.log.lastIncludedIndex))

theorem raftRecvInstallSnapshot_edits (r : Node) (sender : Int) (rpc : InstallSnapshot)
    (permits : Permits perm r sender (.installSnapshot rpc))
    (answers : answersStale r sender rpc = true → r.termDirtyGen ≤ r.persistGen ∨ perm.install) :
    Edits cuts perm r (raftRecvInstallSnapshot r sender rpc).1 := by
  unfold raftRecvInstallSnapshot
  split
  · exact .refl r
  · rename_i valid
    simp only [Bool.or_eq_true, not_or, Bool.not_eq_true, Bool.not_eq_false'] at valid
    obtain ⟨⟨fromNode, fromLeader⟩, inRange⟩ := valid
    split
    · rename_i late
      have opened := answers (by
        simp only [answersStale, fromNode, fromLeader, inRange, Bool.not_false, Bool.true_and]
        exact late)
      exact answer_edits r sender _ opened
    · rename_i timely
      simp only [Bool.or_eq_true, decide_eq_true_eq, not_or, not_lt] at timely
      have adopted : Edits cuts perm r (adoptTerm r rpc.term rpc.leaderId) :=
        adoptTerm_edits r rpc.term rpc.leaderId
          (fun newer => permits.takes (by simp [takesTerm, fromNode, fromLeader, newer, timely.2]))
      dsimp only
      split
      · exact adopted
      · exact adopted.trans (.of_calm ((followLeader_calm ..).trans
          ((followSnapshot_calm ..).trans (recvSnapshotChunk_calm ..))))

theorem raftRecvReadIndex_edits (r : Node) (sender : Int) (rpc : ReadIndexReq)
    (permits : Permits perm r sender (.readIndex rpc)) :
    Edits cuts perm r (raftRecvReadIndex r sender rpc).1 := by
  unfold raftRecvReadIndex
  split
  · exact .refl r
  · rename_i valid
    split
    · rename_i newer
      split
      · exact .refl r
      · refine raftStepDown_edits r rpc.term 0 newer.le (fun _ inRange => permits.takes ?_)
        simp only [Bool.or_eq_true, not_or, Bool.not_eq_true, Bool.not_eq_false', decide_eq_true_eq,
          ne_eq, not_not] at valid
        simp [takesTerm, valid.1.1, valid.1.2, newerTerm_intro newer inRange]
    · split
      · exact .refl r
      · refine Edits.trans ?_ (.of_calm (joinRound_calm ..))
        exact .of_same rfl ⟨rfl, rfl, rfl⟩ rfl

theorem raftRecvReadIndexResult_edits (r : Node) (sender : Int) (result : ReadIndexResult)
    (permits : Permits perm r sender (.readIndexResult result)) :
    Edits cuts perm r (raftRecvReadIndexResult r sender result).1 := by
  unfold raftRecvReadIndexResult
  split
  · exact .refl r
  · rename_i valid
    split
    · rename_i newer
      refine raftStepDown_edits r result.term 0 newer.le (fun _ inRange => permits.takes ?_)
      simp only [Bool.or_eq_true, not_or, Bool.not_eq_true, Bool.not_eq_false', decide_eq_true_eq,
        ne_eq, not_not] at valid
      simp [takesTerm, valid.1.1.1, valid.1.1.2, valid.1.2, newerTerm_intro newer inRange]
    · split
      · exact .refl r
      · exact .of_calm (resolveFrozen_calm ..)

/-- A step-down leaves no acknowledgement latched. -/
theorem raftStepDown_append (r : Node) (term leaderId : Int) (inRange : termOutOfRange term = false) :
    (raftStepDown r term leaderId).deferredAppend.response = false := by
  unfold raftStepDown
  simp only [inRange, Bool.false_eq_true, if_false]
  by_contra set
  have emitted := (emitResults_calm { raftFlushClientResults (stepDownFields r term leaderId) .redirect with
    readBarrierGen := 0 } ([r.transfer.cookie, if r.catchup.active then r.catchup.cookie else 0].filter
      (· ≠ 0)) .redirect).append (by simpa using set)
  have flushed := (raftFlushClientResults_calm (stepDownFields r term leaderId) .redirect).append
    (by rw [emitted] at set; simpa using set)
  rw [emitted] at set
  simp only [flushed] at set
  exact set rfl

theorem raftRecvTimeoutNow_edits (r : Node) (sender : Int) (rpc : TimeoutNow)
    (permits : Permits perm r sender (.timeoutNow rpc)) :
    Edits cuts perm r (raftRecvTimeoutNow r sender rpc).1 := by
  unfold raftRecvTimeoutNow
  split
  · exact .refl r
  · rename_i valid
    simp only [Bool.or_eq_true, not_or, Bool.not_eq_true, Bool.not_eq_false', decide_eq_true_eq,
      not_lt] at valid
    obtain ⟨⟨fromNode, inRange⟩, recent⟩ := valid
    have adopted : Edits cuts perm r (adoptTerm r rpc.term rpc.leaderId) :=
      adoptTerm_edits r rpc.term rpc.leaderId
        (fun newer => permits.takes (by simp [takesTerm, fromNode, newer]))
    dsimp only
    split
    · rename_i reaches
      have stands : mayStand (adoptTerm r rpc.term rpc.leaderId) = true →
          standsOn r sender (.timeoutNow rpc) = true := by
        intro may
        simp only [standsOn, fromNode, inRange, recent, may, Bool.not_false, decide_true, Bool.and_true,
          Bool.true_and, timeoutReaches, Bool.and_eq_true, beq_iff_eq]
        simpa using reaches
      refine adopted.trans (raftBecomeCandidate_edits _ (fun may => permits.stands (stands may))
        (fun may set => ?_))
      -- a newer term has dropped the latch
      by_cases newer : r.currentTerm < rpc.term
      · have dropped := raftStepDown_append r rpc.term rpc.leaderId inRange
        simp only [adoptTerm, newer, if_true, dropped] at set
        cases set
      · refine permits.settled (stands may) (by simp [takesTerm, newerTerm, newer]) ?_
        simpa only [adoptTerm, newer, if_false] using set
    · exact adopted

/-- Where a peer's message cuts the log: only entries of the term's leader do. -/
def messageCut (r : Node) (msg : PeerMessage) : Option Int :=
  match msg.rpc with
  | .appendEntries rpc =>
    if r.phase ≠ .stopped && followsLeader r msg.sender rpc then scanCut r.log rpc else none
  | _ => none

theorem raftRecvfromPeer_edits (r : Node) (msg : PeerMessage)
    (allowed : ∀ idx, messageCut r msg = some idx → cuts idx)
    (permits : r.phase ≠ .stopped → Permits perm r msg.sender msg.rpc)
    (grants : r.phase ≠ .stopped → ∀ rpc, msg.rpc = .requestVote rpc →
      grantsVote r msg.sender rpc = true →
      perm.latch ∧ ((adoptTerm r rpc.term 0).votedFor ≠ rpc.candidateId → perm.vote))
    (answers : r.phase ≠ .stopped → ∀ rpc, msg.rpc = .installSnapshot rpc →
      answersStale r msg.sender rpc = true → r.termDirtyGen ≤ r.persistGen ∨ perm.install) :
    Edits cuts perm r (raftRecvfromPeer r msg).1 := by
  unfold messageCut at allowed
  unfold raftRecvfromPeer
  split
  · exact .refl r
  · rename_i active
    have may := permits active
    split
    · rename_i rpc shape
      rw [shape] at may
      exact raftRecvRequestVote_edits r msg.sender rpc may (grants active rpc shape)
    · rename_i result shape
      rw [shape] at may
      exact raftRecvRequestVoteResult_edits r msg.sender result may
    · rename_i rpc shape
      rw [shape] at may
      refine raftRecvAppendEntries_edits r msg.sender rpc may (fun follows idx cut => allowed idx ?_)
      simp [shape, active, follows, cut]
    · rename_i result shape
      rw [shape] at may
      exact recvReply_edits r _ _ _ may.takes (fun peer => acked_edits r _ peer.isLearner)
    · rename_i rpc shape
      rw [shape] at may
      exact raftRecvInstallSnapshot_edits r msg.sender rpc may (answers active rpc shape)
    · rename_i result shape
      rw [shape] at may
      exact recvReply_edits r _ _ _ may.takes (fun peer => acked_edits r _ peer.isLearner)
    · rename_i rpc shape
      rw [shape] at may
      exact raftRecvReadIndex_edits r msg.sender rpc may
    · rename_i result shape
      rw [shape] at may
      exact raftRecvReadIndexResult_edits r msg.sender result may
    · rename_i rpc shape
      rw [shape] at may
      exact raftRecvTimeoutNow_edits r msg.sender rpc may

end Moves

/-! ## Clients -/

theorem raftSubmit_edits (r : Node) (commands : List Command) :
    Edits cuts perm r (raftSubmit r commands).1 := by
  unfold raftSubmit
  split
  · exact .refl r
  · split
    · exact .refl r
    · exact .of_append _ rfl ⟨rfl, rfl, rfl⟩ (.of_hard rfl)

theorem admitLearnerChange_calm (r : Node) : Calm r (admitLearnerChange r) := by
  have cleared := raftConfigZombieClear_calm r
  unfold admitLearnerChange
  dsimp only
  split
  · exact cleared.trans (raftConfigPendingClear_calm _)
  · exact cleared

theorem raftAddLearner_edits (r : Node) (cookie : Nat) (learnerId : Int) :
    Edits cuts perm r (raftAddLearner r cookie learnerId).1 := by
  unfold raftAddLearner
  split
  · exact .refl r
  · split
    · exact .of_calm (raftConfigZombieClear_calm r)
    · dsimp only
      have committed : ∀ learners, Edits cuts perm r (raftCommitConfigEntry
          (setPending (admitLearnerChange r) (admitLearnerChange r).config.old learners) cookie).1 :=
        fun learners => Edits.trans
          (.of_calm ((admitLearnerChange_calm r).trans (setPending_calm _ _ learners)))
          (raftCommitConfigEntry_edits ..)
      split
      · rename_i next shape
        have appended := committed (insertLearner (admitLearnerChange r).config.learners learnerId)
        rw [shape] at appended
        exact appended.trans (.of_same rfl ⟨rfl, rfl, rfl⟩ rfl)
      · exact committed _

theorem raftRemoveLearner_edits (r : Node) (cookie : Nat) (learnerId : Int) :
    Edits cuts perm r (raftRemoveLearner r cookie learnerId).1 := by
  unfold raftRemoveLearner
  split
  · exact .refl r
  · split
    · exact .of_calm (raftConfigZombieClear_calm r)
    · exact Edits.trans (.of_calm ((admitLearnerChange_calm r).trans (setPending_calm ..)))
        (raftCommitConfigEntry_edits ..)

theorem raftRecvfromClient_edits (r : Node) (msg : ClientMessage) :
    Edits cuts perm r (raftRecvfromClient r msg).1 := by
  unfold raftRecvfromClient
  cases msg with
  | submit commands => exact raftSubmit_edits ..
  | barrier cookie => exact .of_calm (raftBarrier_calm ..)
  | reconfig cookie ids => exact raftReconfig_edits ..
  | addLearner cookie learnerId => exact raftAddLearner_edits ..
  | removeLearner cookie learnerId => exact raftRemoveLearner_edits ..
  | transfer cookie targetId => exact .of_calm (raftTransfer_calm ..)

/-! ## Completions -/

theorem commitConfig_edits (r : Node) (idx : Int) (entry : Entry) :
    Edits cuts perm r (commitConfig r idx entry).1 := by
  have retired : Edits cuts perm r (retirePending r idx) := .of_calm (retirePending_calm r idx)
  unfold commitConfig
  dsimp only
  split
  · split
    · exact retired.trans (raftFinalizeJoint_edits ..)
    · exact retired
  · exact retired.trans (.of_calm (raftApplyConfigFromLog_calm _))

theorem scanCommitted_edits (steps : Nat) (r : Node) (selfRemoved : Bool) (idx : Int) :
    Edits cuts perm r (scanCommitted r selfRemoved steps idx).1 := by
  induction steps generalizing r selfRemoved idx with
  | zero => exact .refl r
  | succ steps ih =>
    unfold scanCommitted
    split
    · exact ih ..
    · rename_i entry _
      have committed : Edits cuts perm r (commitConfig r idx entry).1 := commitConfig_edits r idx entry
      split
      · rename_i shape
        rw [shape] at committed
        exact committed.trans (ih ..)
      · rename_i shape
        rw [shape] at committed
        exact committed

/-- An installed snapshot compacts the log up to its boundary, or restarts the
log there. -/
theorem installLog_edits (r : Node) (above : r.log.lastIncludedIndex ≤ r.snapshotRecv.lastIndex)
    (allowed : boundaryMatches r = false → cuts r.snapshotRecv.lastIndex) :
    Edits cuts perm r (installLog r) := by
  unfold installLog
  dsimp only
  by_cases matching : boundaryMatches r = true
  · simp only [matching, if_true]
    have reached : r.snapshotRecv.lastIndex ≤ raftLogLastIndex r.log := by
      simp only [boundaryMatches, Bool.and_eq_true, decide_eq_true_eq] at matching
      exact matching.1
    split
    · rename_i log compacted
      exact .single (.log (.compact _ _ compacted ⟨rfl, rfl, rfl⟩) (.of_hard rfl))
    · rename_i refused
      simp [raftLogCompactPrefix, not_lt.mpr above, not_lt.mpr reached] at refused
  · simp only [matching, Bool.false_eq_true, if_false]
    exact .single (.log (.reset _ _ (allowed (by simpa using matching)) above rfl ⟨rfl, rfl, rfl⟩)
      (clamped_quiet r _ _))

theorem answerInstall_edits [Moving perm] (r : Node)
    (opened : r.termDirtyGen ≤ r.persistGen ∨ perm.install) : Edits cuts perm r (answerInstall r) := by
  unfold answerInstall
  split
  · exact answer_edits r r.leaderId _ opened
  · exact .refl r

theorem installState_edits (r : Node) (above : r.log.lastIncludedIndex ≤ r.snapshotRecv.lastIndex)
    (allowed : boundaryMatches r = false → cuts r.snapshotRecv.lastIndex) :
    Edits cuts perm r (installState r) := by
  have logged : Edits cuts perm r (installLog (installConfig r)) :=
    Edits.trans (.of_calm (installConfig_calm r)) (installLog_edits (installConfig r) above allowed)
  refine logged.trans (Edits.trans ?_ (Edits.trans (.of_calm (rebuildPeers_calm { installLog (installConfig r) with
    lastApplied := max r.lastApplied r.snapshotRecv.lastIndex
    applyOffered := max r.applyOffered (max r.lastApplied r.snapshotRecv.lastIndex)
    commitIndex := max r.commitIndex (installLog (installConfig r)).log.lastIncludedIndex })) ?_))
  · exact .of_same rfl ⟨rfl, rfl, rfl⟩ rfl
  · exact .of_same rfl ⟨rfl, rfl, rfl⟩ rfl

theorem installSnapshot_edits [Moving perm] (r : Node)
    (allowed : r.log.lastIncludedIndex ≤ r.snapshotRecv.lastIndex → boundaryMatches r = false →
      cuts r.snapshotRecv.lastIndex)
    (answers : r.log.lastIncludedIndex ≤ r.snapshotRecv.lastIndex →
      r.termDirtyGen ≤ r.persistGen ∨ perm.install) :
    Edits cuts perm r (installSnapshot r).1 := by
  unfold installSnapshot
  split
  · exact .of_same rfl ⟨rfl, rfl, rfl⟩ rfl
  · rename_i reaches
    have above : r.log.lastIncludedIndex ≤ r.snapshotRecv.lastIndex := by omega
    have installed : ∀ {perm}, Edits cuts perm r (raftApplyConfigFromLog (installState r)).1 :=
      (installState_edits r above (allowed above)).trans (.of_calm (raftApplyConfigFromLog_calm _))
    split
    · rename_i applied shape
      rw [shape] at installed
      have dropped : ∀ {perm}, Edits cuts perm r (dropStalePending applied) :=
        installed.trans (.of_calm (dropStalePending_calm _))
      -- the gate is as it was before the installation
      have quiet : Quiet r (dropStalePending applied) := Edits.quiet dropped
      refine dropped.trans (answerInstall_edits _ ((answers above).imp_left fun opened => ?_))
      have gen := quiet.gen
      have dirtyGen := quiet.dirtyGen
      simp only [hard] at gen dirtyGen
      omega
    · rename_i shape
      rw [shape] at installed
      exact installed

/-- Where the installation of a snapshot restarts the log. -/
def installCut (r : Node) (appliedIndex : Int) : Option Int :=
  if installDue r appliedIndex && decide (r.log.lastIncludedIndex ≤ r.snapshotRecv.lastIndex) &&
      !boundaryMatches r then some r.snapshotRecv.lastIndex
  else none

def applyCut (r : Node) (appliedIndex : Int) : Option Int :=
  match applyScan r appliedIndex with
  | (scanned, 0, _) => if r.completing then installCut scanned appliedIndex else none
  | _ => none

/-- A snapshot is installed, and its sender is told. -/
def installs (r : Node) (appliedIndex : Int) : Bool :=
  installDue r appliedIndex && decide (r.log.lastIncludedIndex ≤ r.snapshotRecv.lastIndex)

def applyInstalls (r : Node) (appliedIndex : Int) : Bool :=
  match applyScan r appliedIndex with
  | (scanned, 0, _) => r.completing && installs scanned appliedIndex
  | _ => false

theorem installIfDue_edits [Moving perm] (r : Node) (appliedIndex : Int)
    (allowed : ∀ idx, installCut r appliedIndex = some idx → cuts idx)
    (answers : installs r appliedIndex = true → r.termDirtyGen ≤ r.persistGen ∨ perm.install) :
    Edits cuts perm r (installIfDue r appliedIndex).1 := by
  unfold installIfDue
  split
  · rename_i due
    refine installSnapshot_edits r (fun above differs => allowed _ ?_) (fun above => answers ?_)
    · simp [installCut, due, above, differs]
    · simp [installs, due, above]
  · exact .refl r

theorem raftApplyComplete_edits [Moving perm] (r : Node) (appliedIndex : Int)
    (allowed : ∀ idx, applyCut r appliedIndex = some idx → cuts idx)
    (answers : applyInstalls r appliedIndex = true →
      r.termDirtyGen ≤ r.persistGen ∨ perm.install) :
    Edits cuts perm r (raftApplyComplete r appliedIndex).1 := by
  have scanned : ∀ {perm}, Edits cuts perm r (applyScan r appliedIndex).1 :=
    Edits.trans (.of_calm (markApplied_calm r appliedIndex)) (scanCommitted_edits ..)
  unfold raftApplyComplete
  split
  · exact .refl r
  · rename_i completing
    simp only [Bool.not_eq_true, Bool.not_eq_false'] at completing
    split
    · rename_i next selfRemoved shape
      rw [shape] at scanned
      have marked : ∀ {perm}, Edits cuts perm r (markScanned next) :=
        scanned.trans (.of_same rfl ⟨rfl, rfl, rfl⟩ rfl)
      have quiet : Quiet r (markScanned next) := Edits.quiet marked
      have installed : Edits cuts perm r (installIfDue (markScanned next) appliedIndex).1 := by
        refine marked.trans (installIfDue_edits _ _ (fun idx cut => allowed idx ?_) (fun due => ?_))
        · have same : installCut (markScanned next) appliedIndex = installCut next appliedIndex := rfl
          simp [applyCut, shape, completing, ← same, cut]
        · have same : installs (markScanned next) appliedIndex = installs next appliedIndex := rfl
          refine (answers (by simp [applyInstalls, shape, completing, ← same, due])).imp_left
            fun opened => ?_
          have gen := quiet.gen
          have dirtyGen := quiet.dirtyGen
          simp only [hard] at gen dirtyGen
          omega
      split
      · rename_i final installShape
        rw [installShape] at installed
        refine (installed.trans (.of_calm (retireClients_calm _))).trans ?_
        unfold leaveIfRemoved
        split
        · exact raftStepDown_edits _ _ 0 (le_refl _) (fun above => absurd above (lt_irrefl _))
        · exact .refl _
      · rename_i installShape
        rw [installShape] at installed
        exact installed
    · rename_i shape
      rw [shape] at scanned
      exact scanned

/-- Where a call cuts entries off the log, or restarts it. -/
def cutPoint (r : Node) : Op → Option Int
  | .recvPeer msg => messageCut r msg
  | .advance elapsedMs => advanceCut r elapsedMs
  | .applyComplete appliedIndex => applyCut r appliedIndex
  | _ => none

/-- The call takes a newer term. -/
def movesTerm (r : Node) : Op → Bool
  | .recvPeer msg =>
    r.phase != .stopped && (takesTerm r msg.sender msg.rpc || standsOn r msg.sender msg.rpc)
  | .advance elapsedMs => (advanceCut r elapsedMs).isSome || (advanceStands r elapsedMs).isSome
  | _ => false

/-- The node stands for election while an acknowledgement is latched. -/
def standsLatched (r : Node) : Op → Bool
  | .recvPeer msg => r.phase != .stopped && standsOn r msg.sender msg.rpc &&
      !takesTerm r msg.sender msg.rpc && r.deferredAppend.response
  | .advance elapsedMs => (advanceStands r elapsedMs).any (fun timed => timed.deferredAppend.response)
  | _ => false

/-- The call grants a real vote. -/
def grants (r : Node) : Op → Bool
  | .recvPeer ⟨sender, _, .requestVote rpc⟩ => r.phase != .stopped && grantsVote r sender rpc
  | _ => false

/-- The call casts a vote that the node had not cast before. -/
def casts (r : Node) : Op → Bool
  | .recvPeer ⟨sender, _, .requestVote rpc⟩ => r.phase != .stopped && grantsVote r sender rpc &&
      (adoptTerm r rpc.term 0).votedFor != rpc.candidateId
  | _ => false

/-- The call answers a snapshot. -/
def answersInstall (r : Node) : Op → Bool
  | .recvPeer ⟨sender, _, .installSnapshot rpc⟩ => r.phase != .stopped && answersStale r sender rpc
  | .applyComplete appliedIndex => applyInstalls r appliedIndex
  | _ => false

/-- What an operation may do to the hard state. -/
structure OpPermits (perm : Perm) (r : Node) (op : Op) : Prop where
  newTerm : movesTerm r op = true → perm.newTerm
  stand : standsLatched r op = true → perm.stand
  vote : casts r op = true → perm.vote
  latch : grants r op = true → perm.latch
  install : answersInstall r op = true → r.termDirtyGen ≤ r.persistGen ∨ perm.install

theorem OpPermits.all (r : Node) (op : Op) : OpPermits .all r op :=
  ⟨fun _ => trivial, fun _ => trivial, fun _ => trivial, fun _ => trivial, fun _ => .inr trivial⟩

theorem OpPermits.message {msg : PeerMessage} (permits : OpPermits perm r (.recvPeer msg))
    (active : r.phase ≠ .stopped) : Permits perm r msg.sender msg.rpc where
  takes := fun takes => permits.newTerm (by simp [movesTerm, active, takes])
  stands := fun stands => permits.newTerm (by simp [movesTerm, active, stands])
  settled := fun stands older set => permits.stand (by simp [standsLatched, active, stands, older, set])

theorem call_edits [Moving perm] (r : Node) (op : Op) (permits : OpPermits perm r op) :
    Edits (fun idx => cutPoint r op = some idx) perm r (call r op) := by
  cases op with
  | recvPeer msg =>
    obtain ⟨sender, target, body⟩ := msg
    refine raftRecvfromPeer_edits r _ (fun _ cut => cut) permits.message ?_ ?_
    · rintro active rpc rfl granted
      refine ⟨permits.latch (by simp [grants, active, granted]), fun first => permits.vote ?_⟩
      simp [casts, active, granted, first]
    · rintro active rpc rfl late
      exact permits.install (by simp [answersInstall, active, late])
  | recvClient msg => exact raftRecvfromClient_edits r msg
  | applyComplete appliedIndex =>
    exact raftApplyComplete_edits r appliedIndex (fun _ cut => cut) permits.install
  | snapshot => exact .of_calm (raftSnapshot_calm r)
  | snapshotDataReady totalSize => exact .of_calm (raftSnapshotDataReady_calm ..)
  | snapshotDataProvided followerId byteOffset size =>
    exact .of_calm (raftSnapshotDataProvided_calm ..)
  | stop => exact .of_calm (raftStop_calm r)
  | advance elapsedMs => exact .refl r
  | complete => exact .refl r

theorem advance_edits [Moving perm] (r : Node) (elapsedMs : Nat) (releases : perm.release)
    (permits : OpPermits perm r (.advance elapsedMs)) :
    Edits (fun idx => cutPoint r (.advance elapsedMs) = some idx) perm r
      (raftAdvance r elapsedMs).1 := by
  refine raftAdvance_edits r elapsedMs releases (fun idx cut => ⟨cut, permits.newTerm ?_⟩) (fun timed stands =>
    ⟨permits.newTerm ?_, fun set => permits.stand ?_⟩)
  · simp [movesTerm, cut]
  · simp [movesTerm, stands]
  · simp [standsLatched, stands, set]

end Kynovo.Raft.NodeEdits
