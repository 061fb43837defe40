import Kynovo.Raft.Durability
import Kynovo.Server.Drive

/-! A node without a voter peer applies and answers from its own disk. Every
entry of the log is in a view that was handed out, or a view is due; so once
nothing is in flight, or once the view of a bundle is on disk, all that the
bundle applies is on disk too. -/
namespace Kynovo.Server.SoleVoter
open Kynovo.Raft
open Kynovo.Raft.Frame
open Kynovo.Raft.NodeEdits
open Kynovo.Raft.Frontier
open Kynovo.Raft.Owed
open Kynovo.Raft.Durability
open Kynovo.Wal.Record
open Kynovo.Server.Drive

/-! ## What the views record -/

/-- One of the views contains an entry with this index and this term. -/
def recorded (views : List Persist) (item : Offered) : Bool :=
  views.any (fun view => view.logEntries.any
    (fun entry => entry.index == item.index && entry.term == item.term))

theorem recorded_of_storedIn {views : List Persist} {idx : Int} {entry : Entry} (cookie : Nat)
    (stored : storedIn views idx entry) : recorded views ⟨cookie, idx, entry.term⟩ = true := by
  obtain ⟨view, member, item, inView, same⟩ := stored
  simp only [content, Prod.mk.injEq] at same
  simp only [recorded, List.any_eq_true, Bool.and_eq_true, beq_iff_eq]
  exact ⟨view, member, item, inView, same.1, same.2.1⟩

theorem recorded_append {views : List Persist} {item : Offered} (more : List Persist)
    (before : recorded views item = true) : recorded (views ++ more) item = true := by
  simp only [recorded, List.any_append, Bool.or_eq_true] at before ⊢
  exact .inl before

/-- Every entry of the log is in one of the views, or lies in a gap. -/
def Covered (log : Log) (views : List Persist) (gaps : List Int) : Prop :=
  ∀ idx entry, log.entryAt idx = some entry → storedIn views idx entry ∨ ∃ gap ∈ gaps, idx ≤ gap

theorem Covered.kept {log log' : Log} {views : List Persist} {gaps : List Int}
    (covered : Covered log views gaps) (kept : Kept log log') : Covered log' views gaps :=
  fun idx entry held => covered idx entry (kept idx entry held)

theorem Covered.entries {log : Log} {views : List Persist} {gaps : List Int}
    (covered : Covered log views gaps) {applies : List ApplyEntry} {item : Offered}
    (member : item ∈ entriesOf log applies) :
    recorded views item = true ∨ ∃ gap ∈ gaps, item.index ≤ gap := by
  obtain ⟨apply, -, shape⟩ := List.mem_filterMap.mp member
  obtain ⟨entry, held, rfl⟩ := Option.map_eq_some_iff.mp shape
  exact (covered apply.index entry held).imp_left (recorded_of_storedIn apply.cookie)

/-! ## The invariant -/

structure Backs (s : Server) : Prop where
  truthful : Truthful s.run
  covered : s.run.node.persistNeeded = false → Covered s.run.node.log s.run.emitted s.gaps
  views : s.posted.map Posted.view = s.run.inflight.map Handed.view
  offered : ∀ item ∈ s.offered, recorded s.run.emitted item = true
  queued : ∀ front posted back bundle, s.posted = front ++ posted :: back →
    posted.live = some bundle → ∀ item ∈ bundle.entries ++ bundle.offered,
    recorded (s.run.completed ++ (front ++ [posted]).map Posted.view) item = true
  effects : ∀ effect ∈ s.effects, effect.alone = true →
    ∀ item ∈ effect.applied ++ effect.offered, recorded effect.disk item = true

/-- A call that hands out nothing and completes nothing. -/
theorem Backs.called {s : Server} {node : Node} (backs : Backs s)
    (truthful : Truthful { s.run with node }) (owes : Owes s.run.node node) :
    Backs { s with run := { s.run with node } } where
  truthful := truthful
  covered := fun settled => by
    have before : s.run.node.persistNeeded = false := by
      by_contra due
      have stays := owes.stays (by simpa using due)
      exact absurd (settled.symm.trans stays) (by simp)
    refine (backs.covered before).kept (owes.grown.resolve_left ?_)
    simpa using settled
  views := backs.views
  offered := backs.offered
  queued := backs.queued
  effects := backs.effects

/-- The condition on a call of the node. -/
structure Calls (run : Run) (op : Op) : Prop where
  keeps : keepsInflight run op
  taken : ∀ msg, op = .recvPeer msg → takenWhole run.node msg

theorem Backs.call {s : Server} {op : Op} (backs : Backs s) (calls : Calls s.run op) :
    Backs { s with run := { s.run with node := call s.run.node op } } :=
  backs.called (backs.truthful.of_edits (call_edits s.run.node op (.all _ _)) calls.keeps)
    (call_owes s.run.node op calls.taken)

/-- A call that cannot cut the log. -/
theorem Calls.plain {run : Run} {op : Op} (uncut : cutPoint run.node op = none)
    (mine : ∀ msg, op ≠ .recvPeer msg) : Calls run op where
  keeps := by
    intro idx cut
    rw [uncut] at cut
    cases cut
  taken := fun msg same => absurd same (mine msg)

theorem Backs.sendClients {s : Server} (backs : Backs s) (clients : List ClientMessage) :
    Backs { s with run := sendClients s.run clients } := by
  induction clients generalizing s with
  | nil => exact backs
  | cons msg rest ih =>
    have sent : Backs { s with run := s.run.step (.recvClient msg) } :=
      backs.call (.plain rfl (by simp))
    exact ih sent

theorem Backs.provideChunks {s : Server} (backs : Backs s) (chunks : List (Int × Int × Nat)) :
    Backs { s with run := provideChunks s.run chunks } := by
  induction chunks generalizing s with
  | nil => exact backs
  | cons chunk rest ih =>
    have provided : Backs { s with
        run := s.run.step (.snapshotDataProvided chunk.1 chunk.2.1 chunk.2.2) } :=
      backs.call (.plain rfl (by simp))
    exact ih provided

theorem Backs.reportApplied {s : Server} (backs : Backs s) {idx : Option Int}
    (keeps : ∀ applied ∈ idx, keepsInflight s.run (.applyComplete applied)) :
    Backs { s with run := reportApplied s.run idx } := by
  cases idx with
  | none => exact backs
  | some applied =>
    have calls : Calls s.run (.applyComplete applied) := ⟨keeps applied rfl, by simp⟩
    exact backs.call calls

/-! ## The live half -/

/-- No report of the live half cuts into a view in flight. -/
structure LiveOrderly (run : Run) (bundle : ReadyBundle) (input : LiveInput) : Prop where
  applied : ∀ idx ∈ bundle.appliedIndex,
    keepsInflight (sendClients run input.clients) (.applyComplete idx)
  installed : ∀ idx ∈ bundle.installIndex input, keepsInflight
    (reportApplied (sendClients run input.clients) bundle.appliedIndex) (.applyComplete idx)

theorem Backs.live {s : Server} (backs : Backs s) {disk : List Persist} {bundle : ReadyBundle}
    {input : LiveInput} (orderly : LiveOrderly s.run bundle input)
    (onDisk : alone s.run.node = true → ∀ item ∈ bundle.entries ++ bundle.offered,
      recorded disk item = true) :
    Backs (kServerProcessBundleLive s disk bundle input) := by
  have asked := backs.sendClients input.clients
  have applied := asked.reportApplied orderly.applied
  have installed := applied.reportApplied orderly.installed
  have provided := installed.provideChunks input.chunks
  refine ⟨provided.truthful, provided.covered, provided.views, provided.offered, provided.queued, ?_⟩
  intro effect member
  rcases List.mem_append.mp member with old | new
  · exact backs.effects effect old
  · rw [List.mem_singleton.mp new]
    exact onDisk

/-! ## Taking a bundle -/

/-- Entries that a view did not leave out, below its boundary, are in the
earlier views. -/
theorem agrees_of_leavesOut {r : Node} {views : List Persist} {view : Persist} {idx : Int}
    {entry : Entry} (leaves : leavesOut r views view = false) (held : r.log.entryAt idx = some entry)
    (above : r.persistSyncedIndex < idx) (below : idx ≤ view.lastIncludedIndex) :
    agrees views idx entry := by
  simp only [leavesOut, List.any_eq_false, List.mem_filter, decide_eq_true_eq, bne_iff_ne, ne_eq,
    not_not, and_imp] at leaves
  obtain ⟨base, -⟩ := entryAt_bounds held
  refine leaves (persistEntry idx entry) ?_ below
  rw [persistEntries_max]
  exact (mem_persistEntries (by omega)).mpr ⟨by simp only [persistEntry]; omega, entry, held, rfl⟩

/-- After a view is handed out the log is covered. -/
theorem covered_handed {r : Node} {views : List Persist} (gaps : List Int)
    (synced : Backed r.log (· ≤ r.persistSyncedIndex) (agrees views)) :
    Covered r.log (views ++ [persistView r]) (gaps ++
      ([persistView r].filter (leavesOut r views)).map Persist.lastIncludedIndex) := by
  intro idx entry held
  obtain ⟨base, -⟩ := entryAt_bounds held
  have known : agrees views idx entry → storedIn (views ++ [persistView r]) idx entry :=
    fun same => storedIn_append _ (storedIn_of_agrees same)
  by_cases below : idx ≤ r.persistSyncedIndex
  · obtain ⟨same, atIdx, agreeing⟩ := synced idx base below
    cases held.symm.trans atIdx
    exact .inl (known agreeing)
  · by_cases boundary : idx ≤ (persistView r).lastIncludedIndex
    · cases leaves : leavesOut r views (persistView r) with
      | false => exact .inl (known (agrees_of_leavesOut leaves held (by omega) boundary))
      | true =>
        refine .inr ⟨(persistView r).lastIncludedIndex, ?_, boundary⟩
        simp [leaves]
    · exact .inl (storedIn_of_agrees (agrees_persistView held (.inr ⟨by omega, by omega⟩)))

theorem askedAll_owes (clients : List ClientMessage) (r : Node) :
    Owes r (clients.foldl (fun r msg => (raftRecvfromClient r msg).1) r) := by
  induction clients generalizing r with
  | nil => exact .refl r
  | cons msg rest ih => exact (raftRecvfromClient_owes r msg).trans (ih _)

theorem askedAll_edits (clients : List ClientMessage) (r : Node) : Edits (fun _ => False) .all r
    (clients.foldl (fun r msg => (raftRecvfromClient r msg).1) r) := by
  induction clients generalizing r with
  | nil => exact .refl r
  | cons msg rest ih => exact (raftRecvfromClient_edits r msg).trans (ih _)

/-- The node after a bundle was assembled and the server has taken it. -/
theorem consumed_truthful {run : Run} (truthful : Truthful run) (replace : List ClientMessage) :
    Truthful { run with
      node := raftReadyConsumed (replace.foldl (fun r msg => (raftRecvfromClient r msg).1) run.node) } := by
  have asked := truthful.of_edits (askedAll_edits replace run.node) (by simp)
  have same : LogEdit (fun _ => False)
      (replace.foldl (fun r msg => (raftRecvfromClient r msg).1) run.node)
      (raftReadyConsumed (replace.foldl (fun r msg => (raftRecvfromClient r msg).1) run.node)) :=
    .same rfl ⟨rfl, rfl, rfl⟩
  exact asked.of_edit same (by simp)

theorem takeReady_truthful {run : Run} {elapsedMs : Nat} (truthful : Truthful run)
    (keeps : keepsInflight run (.advance elapsedMs)) (replace : List ClientMessage) :
    Truthful (takeReady run (raftAdvance run.node elapsedMs) replace) := by
  have edits := advance_edits run.node elapsedMs trivial (.all run.node _)
  have advanced : Truthful { run with node := (raftAdvance run.node elapsedMs).1 } :=
    truthful.of_edits edits keeps
  cases handed : (raftAdvance run.node elapsedMs).2.persist with
  | none =>
    obtain ⟨frontier, flying, queued, views⟩ := consumed_truthful advanced replace
    unfold takeReady
    simp only [handed, Option.toList_none, List.map_nil, List.append_nil]
    exact ⟨frontier, flying, queued, views⟩
  | some view =>
    cases raftAdvance_persist handed
    obtain ⟨frontier, flying, queued, views⟩ := consumed_truthful advanced.handed replace
    unfold takeReady
    simp only [handed, Option.toList_some, List.map_cons, List.map_nil]
    exact ⟨frontier, flying, queued, views⟩

/-- What a bundle applies is in the views handed out with it, or lies in a gap;
and so is the whole log, when no persist is due. -/
theorem taken_covered {s : Server} (backs : Backs s) {elapsedMs : Nat}
    (keeps : keepsInflight s.run (.advance elapsedMs)) (replace : List ClientMessage) :
    ((raftAdvance s.run.node elapsedMs).1.persistNeeded = false →
      Covered (raftAdvance s.run.node elapsedMs).1.log (s.taken elapsedMs replace).run.emitted
        (s.taken elapsedMs replace).gaps) ∧
    ∀ item ∈ (s.bundle elapsedMs).entries, recorded (s.taken elapsedMs replace).run.emitted item = true ∨
      ∃ gap ∈ (s.taken elapsedMs replace).gaps, item.index ≤ gap := by
  have edits := advance_edits s.run.node elapsedMs trivial (.all s.run.node _)
  have advanced : Truthful { s.run with node := (raftAdvance s.run.node elapsedMs).1 } :=
    backs.truthful.of_edits edits keeps
  cases handed : (raftAdvance s.run.node elapsedMs).2.persist with
  | some view =>
    have whole : Covered (raftAdvance s.run.node elapsedMs).1.log
        (s.taken elapsedMs replace).run.emitted (s.taken elapsedMs replace).gaps := by
      have covers := covered_handed s.gaps advanced.frontier.synced
      rw [← raftAdvance_persist handed] at covers
      simpa only [Server.taken, takeReady, handed, Option.toList_some] using covers
    exact ⟨fun _ => whole, fun item member => whole.entries member⟩
  | none =>
    have emitted : (s.taken elapsedMs replace).run.emitted = s.run.emitted := by
      simp [Server.taken, takeReady, handed]
    have gaps : (s.taken elapsedMs replace).gaps = s.gaps := by
      simp [Server.taken, handed]
    rw [emitted, gaps]
    rcases raftAdvance_owes handed with ⟨stopped, calm⟩ | ⟨settled, kept⟩
    · refine ⟨fun settled => ?_, ?_⟩
      · have before : s.run.node.persistNeeded = false := by
          by_contra due
          exact absurd (settled.symm.trans (calm.needed (by simpa using due))) (by simp)
        have same := backs.covered before
        rwa [← calm.log] at same
      · intro item member
        simp [ReadyBundle.entries, entriesOf, Server.bundle, stopped, stoppedReady] at member
    · have covers := (backs.covered settled).kept kept
      exact ⟨fun _ => covers, fun item member => covers.entries member⟩

/-- The entries a bundle applies without a voter peer, or for a client that
waits, lie in no gap. -/
def appliesNoGap (s : Server) (elapsedMs : Nat) (replace : List ClientMessage) : Prop :=
  ∀ item ∈ (s.bundle elapsedMs).entries,
    (alone (s.taken elapsedMs replace).run.node = true ∨ item.cookie ≠ 0) →
    ∀ gap ∈ (s.taken elapsedMs replace).gaps, gap < item.index

theorem taken_recorded {s : Server} (backs : Backs s) {elapsedMs : Nat}
    {replace : List ClientMessage} (keeps : keepsInflight s.run (.advance elapsedMs))
    (noGap : appliesNoGap s elapsedMs replace) {item : Offered}
    (member : item ∈ (s.bundle elapsedMs).entries)
    (matters : alone (s.taken elapsedMs replace).run.node = true ∨ item.cookie ≠ 0) :
    recorded (s.taken elapsedMs replace).run.emitted item = true := by
  rcases (taken_covered backs keeps replace).2 item member with found | ⟨gap, inGaps, below⟩
  · exact found
  · exact absurd below (not_le.mpr (noGap item member matters gap inGaps))

theorem taken_offered {s : Server} (backs : Backs s) {elapsedMs : Nat}
    {replace : List ClientMessage} (keeps : keepsInflight s.run (.advance elapsedMs))
    (noGap : appliesNoGap s elapsedMs replace) :
    ∀ item ∈ (s.bundle elapsedMs).offered,
      recorded (s.taken elapsedMs replace).run.emitted item = true := by
  intro item member
  rcases List.mem_append.mp member with old | new
  · exact recorded_append _ (backs.offered item old)
  · obtain ⟨applies, waits⟩ := List.mem_filter.mp new
    exact taken_recorded backs keeps noGap applies (.inr (by simpa using waits))

theorem Backs.taken {s : Server} (backs : Backs s) {elapsedMs : Nat}
    {replace : List ClientMessage} (keeps : keepsInflight s.run (.advance elapsedMs))
    (noGap : appliesNoGap s elapsedMs replace) : Backs (s.taken elapsedMs replace) where
  truthful := takeReady_truthful backs.truthful keeps replace
  covered := fun settled => by
    have owes := askedAll_owes replace (raftAdvance s.run.node elapsedMs).1
    have before : (raftAdvance s.run.node elapsedMs).1.persistNeeded = false := by
      by_contra due
      exact absurd (settled.symm.trans (owes.stays (by simpa using due))) (by simp)
    have none : ((replace.foldl (fun r msg => (raftRecvfromClient r msg).1)
        (raftAdvance s.run.node elapsedMs).1).persistNeeded) = false := settled
    exact ((taken_covered backs keeps replace).1 before).kept
      (owes.grown.resolve_left (by simp [none]))
  views := by
    simp only [Server.taken, takeReady, List.map_append, backs.views, List.map_map]
    rfl
  offered := taken_offered backs keeps noGap
  queued := by
    intro front posted back bundle shape live
    -- the bundle is the new one, or the split is one of the old queue
    cases handed : (raftAdvance s.run.node elapsedMs).2.persist with
    | none =>
      have same : (s.taken elapsedMs replace).posted = s.posted := by
        simp [Server.taken, handed]
      exact backs.queued front posted back bundle (same ▸ shape) live
    | some view =>
      have split : s.posted ++ [s.post elapsedMs replace view] = front ++ posted :: back := by
        rw [← shape]
        simp [Server.taken, handed]
      rcases List.eq_nil_or_concat back with rfl | ⟨older, newest, rfl⟩
      · obtain ⟨rfl, last⟩ := List.append_inj' split rfl
        obtain ⟨rfl, -⟩ := List.cons.inj last
        have emitted : (s.taken elapsedMs replace).run.emitted =
            s.run.completed ++ (s.posted ++ [s.post elapsedMs replace view]).map Posted.view := by
          simp [Server.taken, takeReady, handed, backs.truthful.views, backs.views, Server.post]
        have deferred : s.liveDeferred elapsedMs replace = true := by
          by_contra immediate
          simp [Server.post, immediate] at live
        have mine : s.bundle elapsedMs = bundle := by
          simpa [Server.post, deferred] using live
        have peerless : alone (s.taken elapsedMs replace).run.node = true := by
          simp only [Server.liveDeferred, Bool.and_eq_true] at deferred
          simp only [alone, Bool.or_eq_true]
          exact .inl deferred.2
        intro item member
        rw [← mine] at member
        have found : recorded (s.taken elapsedMs replace).run.emitted item = true := by
          rcases List.mem_append.mp member with applies | waits
          · exact taken_recorded backs keeps noGap applies (.inl peerless)
          · exact taken_offered backs keeps noGap item waits
        rw [emitted] at found
        exact found
      · have whole : s.posted ++ [s.post elapsedMs replace view] =
            (front ++ posted :: older) ++ [newest] := by
          simpa using split
        exact backs.queued front posted older bundle (List.append_inj' whole rfl).1 live
  effects := backs.effects

/-! ## Rounds -/

/-- The condition on a round that is run. -/
structure Round (s : Server) (elapsedMs : Nat) (replace : List ClientMessage) (input : LiveInput) :
    Prop where
  keeps : keepsInflight s.run (.advance elapsedMs)
  noGap : appliesNoGap s elapsedMs replace
  /-- no catch-up peer passes for a voter while a write is on its way -/
  voters : s.posted ≠ [] ∨ (raftAdvance s.run.node elapsedMs).2.persist.isSome = true →
    soleVoter (s.taken elapsedMs replace).run.node = true →
    raftHasVoterPeer (s.taken elapsedMs replace).run.node = false
  /-- the last voter peer does not go in a round without a view, with writes in flight -/
  peers : s.posted ≠ [] → raftHasVoterPeer (s.taken elapsedMs replace).run.node = true ∨
    (raftAdvance s.run.node elapsedMs).2.persist.isSome = true
  live : s.liveDeferred elapsedMs replace = false →
    LiveOrderly (s.taken elapsedMs replace).run (s.bundle elapsedMs) input

/-- A node that is alone runs its live half at once only when nothing is in
flight and no view goes with it. -/
theorem Round.idle {s : Server} {elapsedMs : Nat} {replace : List ClientMessage} {input : LiveInput}
    (round : Round s elapsedMs replace input) (immediate : s.liveDeferred elapsedMs replace = false)
    (isAlone : alone (s.taken elapsedMs replace).run.node = true) :
    s.posted = [] ∧ (raftAdvance s.run.node elapsedMs).2.persist = none := by
  have unhanded : raftHasVoterPeer (s.taken elapsedMs replace).run.node = false →
      (raftAdvance s.run.node elapsedMs).2.persist.isSome = false := by
    intro peerless
    have same : raftHasVoterPeer (takeReady s.run (raftAdvance s.run.node elapsedMs) replace).node =
        false := peerless
    simpa [Server.liveDeferred, same] using immediate
  by_contra waits
  have busy : s.posted ≠ [] ∨ (raftAdvance s.run.node elapsedMs).2.persist.isSome = true := by
    by_contra none
    simp only [not_or, not_not, Bool.not_eq_true, Option.isSome_eq_false_iff,
      Option.isNone_iff_eq_none] at none
    exact waits none
  have peerless : raftHasVoterPeer (s.taken elapsedMs replace).run.node = false := by
    simp only [alone, Bool.or_eq_true, Bool.not_eq_true'] at isAlone
    exact isAlone.elim id (round.voters busy)
  rcases busy with posted | handed
  · rcases round.peers posted with voter | handed
    · exact absurd (voter.symm.trans peerless) (by simp)
    · exact absurd (handed.symm.trans (unhanded peerless)) (by simp)
  · exact absurd (handed.symm.trans (unhanded peerless)) (by simp)

theorem Backs.drive {s : Server} (backs : Backs s) {elapsedMs walInflightMax : Nat}
    {replace : List ClientMessage} {input : LiveInput}
    (round : s.mayAdvance walInflightMax = true → Round s elapsedMs replace input) :
    Backs (kServerDrive s elapsedMs walInflightMax replace input) := by
  unfold kServerDrive
  split
  · exact backs
  · rename_i may
    have meets := round (by simpa using may)
    have taken := backs.taken meets.keeps meets.noGap
    dsimp only
    split
    · exact taken
    · rename_i immediate
      have immediate : s.liveDeferred elapsedMs replace = false := by simpa using immediate
      refine taken.live (meets.live immediate) (fun isAlone => ?_)
      obtain ⟨posted, unhanded⟩ := meets.idle immediate isAlone
      have emitted : (s.taken elapsedMs replace).run.emitted =
          (s.taken elapsedMs replace).run.completed := by
        have views := taken.truthful.views
        rw [← taken.views] at views
        simpa [Server.taken, posted, unhanded] using views
      rw [← emitted]
      intro item member
      rcases List.mem_append.mp member with applies | waits
      · exact taken_recorded backs meets.keeps meets.noGap applies (.inl isAlone)
      · exact taken_offered backs meets.keeps meets.noGap item waits

/-! ## Completions -/

/-- The condition on the completion of a write. -/
structure Completion (s : Server) (first : Posted) (input : LiveInput) : Prop where
  live : ∀ bundle ∈ first.live, LiveOrderly s.run bundle input
  stands : s.stopping = false → standsForItsLog (s.lived first input).run

theorem lived_posted (s : Server) (first : Posted) (input : LiveInput) :
    (s.lived first input).posted = s.posted := by
  unfold Server.lived
  split
  · rfl
  · rfl

theorem Backs.lived {s : Server} (backs : Backs s) {first : Posted} {rest : List Posted}
    {input : LiveInput} (shape : s.posted = first :: rest)
    (orderly : ∀ bundle ∈ first.live, LiveOrderly s.run bundle input) :
    Backs (s.lived first input) := by
  unfold Server.lived
  split
  · exact backs
  · rename_i bundle live
    refine backs.live (orderly bundle live) (fun _ item member => ?_)
    have stored := backs.queued [] first rest bundle shape live item member
    simpa using stored

/-- The node is not told of a view, and the view is on disk. -/
theorem storeFirst_truthful {run : Run} (truthful : Truthful run) : Truthful (storeFirst run) := by
  unfold storeFirst
  split
  · exact truthful
  · rename_i handed rest shape
    obtain ⟨frontier, flying, queued, views⟩ := truthful
    refine ⟨⟨?_, frontier.synced, frontier.syncedLe, frontier.confirmLe⟩, ?_, ?_, ?_⟩
    · exact frontier.durable.mono (fun _ wanted => wanted) (fun _ _ stored => storedIn_append _ stored)
    · intro other member
      exact flying other (by rw [shape]; exact List.mem_cons_of_mem _ member)
    · intro front other back split
      have whole : run.inflight = (handed :: front) ++ other :: back := by
        rw [shape]
        exact congrArg (handed :: ·) split
      simpa using queued (handed :: front) other back whole
    · rw [views, shape]
      simp

/-- The first view completes, whether or not the node is told. -/
theorem Backs.completed {s : Server} (backs : Backs s) {first : Posted} {rest : List Posted}
    (shape : s.posted = first :: rest) {run : Run} (truthful : Truthful run)
    (owes : Owes s.run.node run.node) (inflight : run.inflight = s.run.inflight.tail)
    (emitted : run.emitted = s.run.emitted) (disk : run.completed = s.run.completed ++ [first.view]) :
    Backs { s with
      posted := rest
      run } where
  truthful := truthful
  covered := fun settled => by
    have before : s.run.node.persistNeeded = false := by
      by_contra due
      exact absurd (settled.symm.trans (owes.stays (by simpa using due))) (by simp)
    rw [emitted]
    exact (backs.covered before).kept (owes.grown.resolve_left (by simpa using settled))
  views := by
    have views := backs.views
    rw [shape] at views
    rw [inflight, List.map_tail, ← views]
    rfl
  offered := by
    rw [emitted]
    exact backs.offered
  queued := by
    intro front posted back bundle split live item member
    have whole : s.posted = (first :: front) ++ posted :: back := by
      rw [shape]
      exact congrArg (first :: ·) split
    rw [disk]
    simpa using backs.queued (first :: front) posted back bundle whole live item member
  effects := backs.effects

theorem Backs.pollWal {s : Server} (backs : Backs s) {input : LiveInput}
    (completes : ∀ first ∈ s.posted.head?, Completion s first input) :
    Backs (kServerPollWal s input) := by
  unfold kServerPollWal
  split
  · exact backs
  · rename_i first rest shape
    have meets := completes first (by simp [shape])
    have lived := backs.lived shape meets.live
    have posted : (s.lived first input).posted = first :: rest := (lived_posted ..).trans shape
    have views := lived.views
    rw [posted] at views
    cases flying : (s.lived first input).run.inflight with
    | nil =>
      rw [flying] at views
      cases views
    | cons handed others =>
      rw [flying] at views
      obtain ⟨same, -⟩ := List.cons.inj views
      dsimp only
      split
      · refine lived.completed posted (storeFirst_truthful lived.truthful) ?_ ?_ ?_ ?_
        · unfold storeFirst
          rw [flying]
          exact .refl _
        · unfold storeFirst
          rw [flying]
          rfl
        · unfold storeFirst
          rw [flying]
        · unfold storeFirst
          rw [flying, same]
      · rename_i serving
        have stands := meets.stands (by simpa using serving)
        refine lived.completed posted (settleFirst_truthful lived.truthful stands) ?_ ?_ ?_ ?_
        · unfold settleFirst
          rw [flying]
          exact completeView_owes ..
        · unfold settleFirst
          rw [flying]
          rfl
        · unfold settleFirst
          rw [flying]
        · unfold settleFirst
          rw [flying, same]

/-! ## Runs -/

/-- The condition on an event. -/
def Lawful (s : Server) : Event → Prop
  | .recvPeer msg => Calls s.run (.recvPeer msg)
  | .drive elapsedMs walInflightMax replace input =>
    s.mayAdvance walInflightMax = true → Round s elapsedMs replace input
  | .persisted input => ∀ first ∈ s.posted.head?, Completion s first input
  | _ => True

theorem Backs.step {s : Server} {event : Event} (backs : Backs s) (lawful : Lawful s event) :
    Backs (s.step event) := by
  cases event with
  | recvPeer msg => exact backs.call lawful
  | recvClient msg => exact backs.sendClients [msg]
  | snapshot =>
    have calls : Calls s.run .snapshot := .plain rfl (by simp)
    exact backs.call calls
  | snapshotDataReady totalSize =>
    have calls : Calls s.run (.snapshotDataReady totalSize) := .plain rfl (by simp)
    exact backs.call calls
  | stop =>
    have calls : Calls s.run .stop := .plain rfl (by simp)
    obtain ⟨truthful, covered, views, offered, queued, effects⟩ := backs.call calls
    exact ⟨truthful, covered, views, offered, queued, effects⟩
  | drive elapsedMs walInflightMax replace input => exact backs.drive lawful
  | persisted input => exact backs.pollWal lawful

theorem start_backs {cfg : CreateConfig} {s : Server} (started : Server.start cfg = some s) :
    Backs s := by
  obtain ⟨run, begun, rfl⟩ := Option.map_eq_some_iff.mp started
  have truthful := start_truthful begun
  obtain ⟨node, created, rfl⟩ := Option.map_eq_some_iff.mp begun
  refine ⟨truthful, fun _ idx entry held => .inl ?_, rfl, by simp, by simp, by simp⟩
  have restored := raftCreate_restored created
  obtain ⟨base, tip⟩ := entryAt_bounds held
  obtain ⟨same, atIdx, agreeing⟩ := restored.backed idx base (tip.trans restored.whole)
  cases held.symm.trans atIdx
  exact storedIn_of_agrees agreeing

theorem serves_backs {cfg : CreateConfig} {s : Server} (served : Serves Lawful cfg s) : Backs s := by
  induction served with
  | start started => exact start_backs started
  | step _ meets ih => exact ih.step meets

/-- In a run whose events meet the condition, whatever is applied while the node
has no voter peer is in a completed record, and so is every entry for which a
client is then told that it is committed. -/
theorem alone_applies_from_disk {cfg : CreateConfig} {s : Server} (served : Serves Lawful cfg s)
    {effect : Effect} (ran : effect ∈ s.effects) (isAlone : effect.alone = true) :
    (∀ item ∈ effect.applied, recorded effect.disk item = true) ∧
    ∀ result ∈ effect.results, result.status = .committed →
      ∀ item ∈ effect.offered, item.cookie = result.cookie → recorded effect.disk item = true := by
  have disk := (serves_backs served).effects effect ran isAlone
  refine ⟨fun item member => disk item (List.mem_append_left _ member), ?_⟩
  intro result _ _ item member _
  exact disk item (List.mem_append_right _ member)

instance (r : Node) (msg : PeerMessage) : Decidable (takenWhole r msg) :=
  inferInstanceAs (Decidable (_ ∨ _))

instance (run : Run) (op : Op) : Decidable (Calls run op) :=
  match op with
  | .recvPeer msg => decidable_of_iff (keepsInflight run (.recvPeer msg) ∧ takenWhole run.node msg)
      ⟨fun both => ⟨both.1, by rintro _ ⟨⟩; exact both.2⟩, fun calls => ⟨calls.keeps, calls.taken msg rfl⟩⟩
  | .recvClient _ | .advance _ | .complete | .applyComplete _ | .snapshot | .snapshotDataReady _
  | .snapshotDataProvided _ _ _ | .stop => decidable_of_iff (keepsInflight run _)
      ⟨fun keeps => ⟨keeps, by rintro _ ⟨⟩⟩, fun calls => calls.keeps⟩

instance (run : Run) (bundle : ReadyBundle) (input : LiveInput) :
    Decidable (LiveOrderly run bundle input) :=
  decidable_of_iff ((∀ idx ∈ bundle.appliedIndex,
      keepsInflight (sendClients run input.clients) (.applyComplete idx)) ∧
    ∀ idx ∈ bundle.installIndex input, keepsInflight
      (reportApplied (sendClients run input.clients) bundle.appliedIndex) (.applyComplete idx))
    ⟨fun both => ⟨both.1, both.2⟩, fun orderly => ⟨orderly.applied, orderly.installed⟩⟩

instance (s : Server) (elapsedMs : Nat) (replace : List ClientMessage) :
    Decidable (appliesNoGap s elapsedMs replace) :=
  inferInstanceAs (Decidable (∀ item ∈ _, _ → ∀ gap ∈ _, _))

instance (s : Server) : Decidable (s.posted = []) :=
  decidable_of_iff (s.posted.isEmpty = true) List.isEmpty_iff

instance (s : Server) (elapsedMs : Nat) (replace : List ClientMessage) (input : LiveInput) :
    Decidable (Round s elapsedMs replace input) :=
  decidable_of_iff (keepsInflight s.run (.advance elapsedMs) ∧ appliesNoGap s elapsedMs replace ∧
    (s.posted ≠ [] ∨ (raftAdvance s.run.node elapsedMs).2.persist.isSome = true →
      soleVoter (s.taken elapsedMs replace).run.node = true →
      raftHasVoterPeer (s.taken elapsedMs replace).run.node = false) ∧
    (s.posted ≠ [] → raftHasVoterPeer (s.taken elapsedMs replace).run.node = true ∨
      (raftAdvance s.run.node elapsedMs).2.persist.isSome = true) ∧
    (s.liveDeferred elapsedMs replace = false →
      LiveOrderly (s.taken elapsedMs replace).run (s.bundle elapsedMs) input))
    ⟨fun ⟨keeps, noGap, voters, peers, live⟩ => ⟨keeps, noGap, voters, peers, live⟩,
      fun round => ⟨round.keeps, round.noGap, round.voters, round.peers, round.live⟩⟩

instance (s : Server) (first : Posted) (input : LiveInput) : Decidable (Completion s first input) :=
  decidable_of_iff ((∀ bundle ∈ first.live, LiveOrderly s.run bundle input) ∧
    (s.stopping = false → standsForItsLog (s.lived first input).run))
    ⟨fun both => ⟨both.1, both.2⟩, fun completion => ⟨completion.live, completion.stands⟩⟩

instance (s : Server) (event : Event) : Decidable (Lawful s event) :=
  match event with
  | .recvPeer msg => inferInstanceAs (Decidable (Calls s.run (.recvPeer msg)))
  | .drive elapsedMs walInflightMax replace input => inferInstanceAs (Decidable
      (s.mayAdvance walInflightMax = true → Round s elapsedMs replace input))
  | .persisted input => inferInstanceAs (Decidable
      (∀ first ∈ s.posted.head?, Completion s first input))
  | .recvClient _ | .snapshot | .snapshotDataReady _ | .stop => .isTrue trivial

/-! A node on its own, and one of two. -/

def single : CreateConfig := ⟨1, [1], false, 10, 100, 200, 7, 1024, 4, none⟩

def firstOfTwo : CreateConfig := ⟨1, [1, 2], false, 10, 100, 200, 7, 1024, 4, none⟩

def nothingElse : LiveInput := ⟨true, [], []⟩

def round (elapsedMs : Nat) : Event := .drive elapsedMs 4 [] nothingElse

def stored : Event := .persisted nothingElse

def write (cookie : Nat) : Event := .recvClient (.submit [⟨cookie, [1]⟩])

/-- The client of the second entry is answered once the entry is on disk. -/
theorem single_answers_from_disk : ∃ s, Serves Lawful single s ∧
    ∃ effect ∈ s.effects, effect.alone = true ∧ ∃ result ∈ effect.results,
      result.status = .committed ∧ ∃ item ∈ effect.offered, item.cookie = result.cookie ∧
        recorded effect.disk item = true := by
  obtain ⟨s, served, tested⟩ := Serves.exists_of_through Lawful single
    (fun s => s.effects.any (fun effect => effect.alone && effect.results.any (fun result =>
      decide (result.status = .committed) &&
        effect.offered.any (fun item => item.cookie == result.cookie))))
    [round 300, stored, write 7, round 0, stored, round 0] (by decide +kernel)
  simp only [List.any_eq_true, Bool.and_eq_true, decide_eq_true_eq, beq_iff_eq] at tested
  obtain ⟨effect, ran, isAlone, result, answered, committed, item, waits, same⟩ := tested
  exact ⟨s, served, effect, ran, isAlone, result, answered, committed, item, waits, same,
    (alone_applies_from_disk served ran isAlone).2 result answered committed item waits same⟩

/-- The entries of a log that was replaced while its view was in flight. -/
def replacedWhileStored : List Event :=
  let entries := fun (leader term prev commit : Int) (new : List Entry) => Event.recvPeer
    ⟨leader, 1, .appendEntries ⟨term, prev, if prev = 0 then 0 else term, commit, 0, new, leader⟩⟩
  [round 0, entries 2 1 0 0 [command 1, command 1, command 1], round 0,
    entries 3 2 0 0 [configEntry 2 [1, 2, 3] [1] [], command 2], stored,
    entries 3 2 2 3 [configEntry 2 [1] [1] []], round 0, stored]

/-- A leader of two makes itself the only voter and takes a write; before its
last views are on disk it is asked to take the other node back. -/
def backToTwo : List Event :=
  let vote := fun (term : Int) (preVote : Bool) =>
    Event.recvPeer ⟨2, 1, .requestVoteResult ⟨term, true, preVote⟩⟩
  let ack := fun (last : Int) =>
    Event.recvPeer ⟨2, 1, .appendEntriesResult ⟨1, 0, last, 0, 0, 0, true⟩⟩
  [round 300, vote 0 true, round 0, stored, round 0, vote 1 false, round 0, stored, ack 1, round 0,
    .recvClient (.reconfig 5 [1]), round 0, write 7, round 0, ack 2, stored, round 0,
    write 8, stored, round 0, .recvClient (.reconfig 9 [1, 2]), round 0]

/-- Without a voter peer a node applies entries that a late completion hid from
its views; and with a catch-up peer in its table the only voter applies a
client's entry whose view is still in flight. -/
theorem alone_applies_before_disk :
    (∃ s, Serves (fun _ _ => True) follower s ∧ ∃ effect ∈ s.effects, effect.voterPeer = false ∧
      ∃ item ∈ effect.applied, recorded effect.disk item = false) ∧
    ∃ s, Serves (fun _ _ => True) firstOfTwo s ∧ ∃ effect ∈ s.effects, effect.sole = true ∧
      ∃ item ∈ effect.applied, item.cookie = 8 ∧ recorded effect.disk item = false := by
  constructor
  · obtain ⟨s, served, tested⟩ := Serves.exists_of_through (fun _ _ => True) follower
      (fun s => s.effects.any (fun effect => !effect.voterPeer &&
        effect.applied.any (fun item => !recorded effect.disk item)))
      replacedWhileStored (by decide +kernel)
    simp only [List.any_eq_true, Bool.and_eq_true, Bool.not_eq_true'] at tested
    obtain ⟨effect, ran, peerless, item, applied, absent⟩ := tested
    exact ⟨s, served, effect, ran, peerless, item, applied, absent⟩
  · obtain ⟨s, served, tested⟩ := Serves.exists_of_through (fun _ _ => True) firstOfTwo
      (fun s => s.effects.any (fun effect => effect.sole &&
        effect.applied.any (fun item => item.cookie == 8 && !recorded effect.disk item)))
      backToTwo (by decide +kernel)
    simp only [List.any_eq_true, Bool.and_eq_true, Bool.not_eq_true', beq_iff_eq] at tested
    obtain ⟨effect, ran, sole, item, applied, mine, absent⟩ := tested
    exact ⟨s, served, effect, ran, sole, item, applied, mine, absent⟩

end Kynovo.Server.SoleVoter
