import Kynovo.Raft.Frontier

/-! What callers and peers may rely on: the durable index, the acknowledgements
and the leader's own vote for a commit cover only entries of completed views,
and the views handed out miss nothing of the log. -/
namespace Kynovo.Raft.Durability
open Kynovo.Wal.Record
open Kynovo.Raft.Frame
open Kynovo.Raft.NodeEdits
open Kynovo.Raft.Frontier

instance (run : Run) (op : Op) : Decidable (keepsInflight run op) :=
  decidable_of_iff (∀ idx ∈ cutPoint run.node op, ∀ handed ∈ run.inflight,
    viewDurable handed.view ≤ idx) Iff.rfl

instance (run : Run) : Decidable (standsForItsLog run) :=
  inferInstanceAs (Decidable (∀ handed ∈ run.inflight.head?, _))

instance (run : Run) (op : Op) : Decidable (Orderly run op) :=
  decidable_of_iff (keepsInflight run op ∧ (op = .complete → standsForItsLog run))
    ⟨fun both => ⟨both.1, both.2⟩, fun orderly => ⟨orderly.keeps, orderly.stands⟩⟩

instance (views : List Persist) (idx : Int) (entry : Entry) : Decidable (agrees views idx entry) :=
  inferInstanceAs (Decidable (_ = _))

/-! ## Acknowledgements -/

/-- A successful acknowledgement covers nothing above an index. -/
def AcksUpTo (bound : Int) (message : PeerMessage) : Prop :=
  ∀ result, message.rpc = .appendEntriesResult result → result.success = true →
    result.lastLogIndex ≤ bound

/-- What an edit adds to the queue acknowledges at most the confirmed index. -/
theorem edit_acks {cuts : Int → Prop} {perm : Perm} {r r' : Node} (edit : Edit cuts perm r r') :
    (hard r').confirm ≤ (hard r).confirm ∧
      ∃ added, (hard r').exposing = (hard r).exposing ++ added ∧
        ∀ message ∈ added, AcksUpTo r.durableConfirm message := by
  have silent : (hard r').confirm ≤ (hard r).confirm → (hard r').exposing = (hard r).exposing →
      (hard r').confirm ≤ (hard r).confirm ∧
        ∃ added, (hard r').exposing = (hard r).exposing ++ added ∧
          ∀ message ∈ added, AcksUpTo r.durableConfirm message :=
    fun confirm exposing => ⟨confirm, [], by simp [exposing], by simp⟩
  cases edit with
  | log _ quiet => exact silent quiet.confirm quiet.exposing
  | hard _ _ _ move =>
    cases move with
    | stepDown _ _ same | stand _ _ _ _ _ _ same | grant _ _ _ _ _ same | latchAppend _ _ same
    | latchReject same => exact silent (by rw [same]) (by rw [same])
    | report message reports _ _ _ _ _ same =>
      refine ⟨by rw [same], [message], by rw [same], ?_⟩
      intro other member result shape success
      obtain ⟨reported, reportedShape, -, bound⟩ := reports
      rw [List.mem_singleton.mp member, reportedShape] at shape
      cases shape
      exact bound success
    | install message _ shape same =>
      refine ⟨by rw [same], [message], by rw [same], ?_⟩
      intro other member result other
      obtain ⟨last, installed⟩ := shape
      rw [List.mem_singleton.mp member, installed] at other
      cases other
    | releaseVote message _ _ shape same =>
      refine ⟨by rw [same], [message], by rw [same], ?_⟩
      intro other member result other
      rw [List.mem_singleton.mp member, shape] at other
      cases other
    | releaseRequest messages _ _ _ shape same =>
      refine ⟨by rw [same], messages, by rw [same], ?_⟩
      intro message member result other
      rw [shape message member] at other
      cases other
    | beyond _ _ _ exposing confirm => exact silent confirm.le exposing

/-- A call acknowledges at most what was confirmed before it. -/
theorem edits_acks {cuts : Int → Prop} {perm : Perm} {r r' : Node} (edits : Edits cuts perm r r') :
    (hard r').confirm ≤ (hard r).confirm ∧
      ∃ added, (hard r').exposing = (hard r).exposing ++ added ∧
        ∀ message ∈ added, AcksUpTo r.durableConfirm message := by
  induction edits with
  | refl => exact ⟨le_refl _, [], by simp, by simp⟩
  | tail _ edit ih =>
    obtain ⟨confirm, added, exposing, bounded⟩ := ih
    obtain ⟨lower, more, longer, moreBounded⟩ := edit_acks edit
    refine ⟨lower.trans confirm, added ++ more, by rw [longer, exposing, List.append_assoc], ?_⟩
    intro message member
    rcases List.mem_append.mp member with old | new
    · exact bounded message old
    · intro result shape success
      exact (moreBounded message new result shape success).trans confirm

/-- The queue of exposing messages after a step, before the caller takes it. -/
def outbox (run : Run) (op : Op) : List PeerMessage :=
  match op with
  | .advance elapsedMs => (raftAdvance run.node elapsedMs).1.msgs.filter gated
  | op => (run.step op).node.msgs.filter gated

/-- What a step adds to the queue. -/
def sent (run : Run) (op : Op) : List PeerMessage :=
  (outbox run op).drop (run.node.msgs.filter gated).length

theorem completeView_msgs (r : Node) (view : Persist) : (completeView r view).msgs = r.msgs := by
  have reported : (raftPersistComplete r (viewDurable view)).1.msgs = r.msgs := by
    unfold raftPersistComplete
    split
    · rfl
    · obtain ⟨commit, confirmed, shape⟩ := commitIfLeader_shape (persistReported r (viewDurable view))
      rw [shape]
      rfl
  unfold completeView
  dsimp only
  split
  · unfold raftSnapshotPersistComplete
    split
    · exact reported
    · split
      · split
        · exact reported
        · exact reported
      · exact reported
  · exact reported

theorem sent_acks (run : Run) (op : Op) :
    ∀ message ∈ sent run op, AcksUpTo run.node.durableConfirm message := by
  have of_edits : ∀ {cuts : Int → Prop} {node : Node}, Edits cuts Perm.all run.node node →
      ∀ message ∈ (node.msgs.filter gated).drop (run.node.msgs.filter gated).length,
        AcksUpTo run.node.durableConfirm message := by
    intro cuts node edits message member
    obtain ⟨-, added, exposing, bounded⟩ := edits_acks edits
    simp only [hard] at exposing
    rw [exposing, List.drop_left] at member
    exact bounded message member
  cases op with
  | advance elapsedMs => exact of_edits (advance_edits run.node elapsedMs trivial (.all _ _))
  | complete =>
    have same : (run.step .complete).node.msgs = run.node.msgs := by
      simp only [Run.step, settleFirst]
      split
      · rfl
      · exact completeView_msgs ..
    simp [sent, outbox, same]
  | recvPeer msg => exact of_edits (call_edits run.node (.recvPeer msg) (.all _ _))
  | recvClient msg => exact of_edits (call_edits run.node (.recvClient msg) (.all _ _))
  | applyComplete appliedIndex =>
    exact of_edits (call_edits run.node (.applyComplete appliedIndex) (.all _ _))
  | snapshot => exact of_edits (call_edits run.node .snapshot (.all _ _))
  | snapshotDataReady totalSize =>
    exact of_edits (call_edits run.node (.snapshotDataReady totalSize) (.all _ _))
  | snapshotDataProvided followerId byteOffset size =>
    exact of_edits (call_edits run.node (.snapshotDataProvided followerId byteOffset size) (.all _ _))
  | stop => exact of_edits (call_edits run.node .stop (.all _ _))

/-! ## The durable index -/

/-- A completed view contains an entry with this index and this term. -/
def onDisk (run : Run) (idx : Int) (entry : Entry) : Bool :=
  run.completed.any (fun view => view.logEntries.any
    (fun item => item.index == idx && item.term == entry.term))

theorem onDisk_of_storedIn {run : Run} {idx : Int} {entry : Entry}
    (stored : storedIn run.completed idx entry) : onDisk run idx entry = true := by
  obtain ⟨view, member, item, inView, same⟩ := stored
  simp only [onDisk, List.any_eq_true, Bool.and_eq_true, beq_iff_eq]
  simp only [content, Prod.mk.injEq] at same
  exact ⟨view, member, item, inView, same.1, same.2.1⟩

theorem onDisk_of_le {cfg : CreateConfig} {run : Run} (reached : Reaches Orderly cfg run) {idx : Int}
    {entry : Entry} (held : run.node.log.entryAt idx = some entry)
    (covered : idx ≤ run.node.durableIndex) : onDisk run idx entry = true := by
  obtain ⟨base, -⟩ := entryAt_bounds held
  obtain ⟨same, atIdx, stored⟩ := (reaches_truthful reached).frontier.durable idx base covered
  cases held.symm.trans atIdx
  exact onDisk_of_storedIn stored

/-- In a run whose cuts spare the views in flight, the entries up to the durable
index are in completed views; so are those that an acknowledgement covers, and
those for which a leader with voting peers counts itself. -/
theorem durable_index_is_truthful {cfg : CreateConfig} {run : Run} (reached : Reaches Orderly cfg run) :
    (∀ idx entry, run.node.log.entryAt idx = some entry → idx ≤ run.node.durableIndex →
      onDisk run idx entry = true) ∧
    (∀ op, ∀ message ∈ sent run op, ∀ result, message.rpc = .appendEntriesResult result →
      result.success = true → ∀ idx entry, run.node.log.entryAt idx = some entry →
      idx ≤ result.lastLogIndex → onDisk run idx entry = true) ∧
    (∀ idx entry oldConfigOnly, raftHasVoterPeer run.node = true →
      selfCounts run.node idx oldConfigOnly = true → run.node.log.entryAt idx = some entry →
      onDisk run idx entry = true) := by
  refine ⟨fun idx entry held covered => onDisk_of_le reached held covered, ?_, ?_⟩
  · intro op message member result shape success idx entry held covered
    have bound := sent_acks run op message member result shape success
    have order := (reaches_truthful reached).frontier.confirmLe
    exact onDisk_of_le reached held (by omega)
  · intro idx entry oldConfigOnly peers counts held
    simp only [selfCounts, peers, Bool.not_true, Bool.false_or, Bool.and_eq_true,
      decide_eq_true_eq] at counts
    exact onDisk_of_le reached held counts.2

/-! Three voters; this node is 1. -/

def follower : CreateConfig := ⟨1, [1, 2, 3], false, 10, 100, 200, 7, 1024, 4, none⟩

def command (term : Int) : Entry := ⟨term, entryCommand, [1], [], [], []⟩

/-- Three entries of a leader's term, from the start of the log. -/
def threeFrom (leader term : Int) : Op :=
  .recvPeer ⟨leader, 1, .appendEntries
    ⟨term, 0, 0, 0, 0, [command term, command term, command term], leader⟩⟩

theorem third_entry_on_disk : ∃ run, Reaches Orderly follower run ∧ run.node.durableIndex = 3 ∧
    ∃ entry, run.node.log.entryAt 3 = some entry ∧ onDisk run 3 entry = true := by
  obtain ⟨run, reached, tested⟩ := Reaches.exists_of_through Orderly follower
    (fun run => decide (run.node.durableIndex = 3) && (run.node.log.entryAt 3).isSome)
    [.advance 0, threeFrom 2 1, .advance 0, .complete] (by decide +kernel)
  simp only [Bool.and_eq_true, decide_eq_true_eq] at tested
  obtain ⟨entry, held⟩ := Option.isSome_iff_exists.mp tested.2
  exact ⟨run, reached, tested.1, entry, held,
    (durable_index_is_truthful reached).1 3 entry held (by omega)⟩

/-- Without voting peers a leader counts itself before its disk does; and a view
that completes after its entries were replaced makes the durable index cover the
new ones. -/
theorem undurable_entries_count :
    (∃ run, Reaches (fun _ _ => True) ⟨1, [1], false, 10, 100, 200, 7, 1024, 4, none⟩ run ∧
      ∃ entry, run.node.log.entryAt 1 = some entry ∧ selfCounts run.node 1 false = true ∧
        run.node.commitIndex = 1 ∧ onDisk run 1 entry = false) ∧
    ∃ run, Reaches (fun _ _ => True) follower run ∧ ∃ entry, run.node.log.entryAt 1 = some entry ∧
      1 ≤ run.node.durableIndex ∧ onDisk run 1 entry = false := by
  constructor
  · obtain ⟨run, reached, tested⟩ := Reaches.exists_of_through (fun _ _ => True)
      ⟨1, [1], false, 10, 100, 200, 7, 1024, 4, none⟩
      (fun run => decide (run.node.commitIndex = 1) && selfCounts run.node 1 false &&
        (run.node.log.entryAt 1).any (fun entry => !onDisk run 1 entry))
      [.advance 300] (by decide +kernel)
    simp only [Bool.and_eq_true, decide_eq_true_eq] at tested
    obtain ⟨entry, held, absent⟩ := (Option.any_eq_true _ _).mp tested.2
    exact ⟨run, reached, entry, held, tested.1.2, tested.1.1, by simpa using absent⟩
  · obtain ⟨run, reached, tested⟩ := Reaches.exists_of_through (fun _ _ => True) follower
      (fun run => decide (1 ≤ run.node.durableIndex) &&
        (run.node.log.entryAt 1).any (fun entry => !onDisk run 1 entry))
      [.advance 0, threeFrom 2 1, .advance 0, threeFrom 3 2, .complete] (by decide +kernel)
    simp only [Bool.and_eq_true, decide_eq_true_eq] at tested
    obtain ⟨entry, held, absent⟩ := (Option.any_eq_true _ _).mp tested.2
    exact ⟨run, reached, entry, held, tested.1, by simpa using absent⟩

/-! ## The views -/

/-- In such a run the views handed out so far agree with the log up to the
watermark, and right after a view is handed out they agree with it everywhere
above the snapshot that the view names. -/
theorem handed_views_miss_nothing {cfg : CreateConfig} {run : Run}
    (reached : Reaches Orderly cfg run) :
    (∀ idx, run.node.log.lastIncludedIndex < idx → idx ≤ run.node.persistSyncedIndex →
      ∃ entry, run.node.log.entryAt idx = some entry ∧ agrees run.emitted idx entry) ∧
    (∀ elapsedMs, keepsInflight run (.advance elapsedMs) →
      ∀ view, (raftAdvance run.node elapsedMs).2.persist = some view →
      ∀ idx entry, (drive run elapsedMs).node.log.entryAt idx = some entry →
      view.lastIncludedIndex < idx → agrees (drive run elapsedMs).emitted idx entry) := by
  have truthful := reaches_truthful reached
  refine ⟨fun idx base covered => truthful.frontier.synced idx base covered, ?_⟩
  intro elapsedMs keeps view handed idx entry held above
  have edits := advance_edits run.node elapsedMs trivial (.all run.node _)
  have advanced := truthful.of_edits edits keeps
  have emitted : (drive run elapsedMs).emitted = run.emitted ++ [view] := by simp [drive, handed]
  have log : (drive run elapsedMs).node.log = (raftAdvance run.node elapsedMs).1.log := rfl
  cases raftAdvance_persist handed
  rw [log] at held
  rw [emitted]
  refine agrees_persistView held ?_
  obtain ⟨base, -⟩ := entryAt_bounds held
  by_cases covered : idx ≤ (raftAdvance run.node elapsedMs).1.persistSyncedIndex
  · obtain ⟨same, atIdx, agreeing⟩ := advanced.frontier.synced idx base covered
    cases held.symm.trans atIdx
    exact .inl agreeing
  · exact .inr ⟨above, by omega⟩

theorem third_entry_handed_out : ∃ run, Reaches Orderly follower run ∧
    run.node.persistSyncedIndex = 3 ∧
    ∃ entry, run.node.log.entryAt 3 = some entry ∧ agrees run.emitted 3 entry := by
  obtain ⟨run, reached, tested⟩ := Reaches.exists_of_through Orderly follower
    (fun run => decide (run.node.persistSyncedIndex = 3) &&
      decide (run.node.log.lastIncludedIndex = 0))
    [.advance 0, threeFrom 2 1, .advance 0, .complete] (by decide +kernel)
  simp only [Bool.and_eq_true, decide_eq_true_eq] at tested
  exact ⟨run, reached, tested.1,
    (handed_views_miss_nothing reached).1 3 (by omega) (by omega)⟩

/-- The late completion moves the watermark over entries that no view holds, and
the next view starts behind them. -/
theorem replaced_entries_skipped : ∃ run, Reaches (fun _ _ => True) follower run ∧
    ∃ entry, run.node.log.entryAt 1 = some entry ∧ 1 ≤ run.node.persistSyncedIndex ∧
      ¬ agrees run.emitted 1 entry ∧ (persistView run.node).logEntries = [] := by
  obtain ⟨run, reached, tested⟩ := Reaches.exists_of_through (fun _ _ => True) follower
    (fun run => decide (1 ≤ run.node.persistSyncedIndex) &&
      decide ((persistView run.node).logEntries = []) &&
      (run.node.log.entryAt 1).any (fun entry => !decide (agrees run.emitted 1 entry)))
    [.advance 0, threeFrom 2 1, .advance 0, threeFrom 3 2, .complete] (by decide +kernel)
  simp only [Bool.and_eq_true, decide_eq_true_eq] at tested
  obtain ⟨entry, held, absent⟩ := (Option.any_eq_true _ _).mp tested.2
  exact ⟨run, reached, entry, held, tested.1.1, by simpa using absent, tested.1.2⟩

end Kynovo.Raft.Durability
