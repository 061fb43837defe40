import Kynovo.Raft.Frontier

/-! The gate that keeps messages back until the hard state they expose is on
disk. It compares generations of completed persists, not terms and votes, so it
holds as long as no view of an older hard state is in flight when the term or
the vote moves. -/
namespace Kynovo.Raft.Gate
open Kynovo.Wal.Record
open Kynovo.Raft.Frame
open Kynovo.Raft.NodeEdits

/-- A completed view carries the term or a later one. A blank disk stands for
term 0. -/
def termStored (completed : List Persist) (term : Int) : Prop :=
  term ≤ 0 ∨ ∃ view ∈ completed, term ≤ view.term

/-- A completed view carries the vote of the term, or a later term. -/
def voteStored (completed : List Persist) (term vote : Int) : Prop :=
  ∃ view ∈ completed, term ≤ view.term ∧ (view.term = term → view.votedFor = vote)

theorem termStored_append {completed : List Persist} {term : Int} (more : List Persist)
    (stored : termStored completed term) : termStored (completed ++ more) term := by
  refine stored.imp_right ?_
  rintro ⟨view, member, reached⟩
  exact ⟨view, List.mem_append_left _ member, reached⟩

theorem voteStored_append {completed : List Persist} {term vote : Int} (more : List Persist)
    (stored : voteStored completed term vote) : voteStored (completed ++ more) term vote := by
  obtain ⟨view, member, rest⟩ := stored
  exact ⟨view, List.mem_append_left _ member, rest⟩

/-- What a message exposes is stored. A vote result does not name the vote: it
is the one the node had cast, and outside `raft_advance` none is queued. -/
def Exposed (completed : List Persist) (votes : Option Int) (message : PeerMessage) : Prop :=
  match message.rpc with
  | .requestVote rpc => rpc.preVote = false → voteStored completed rpc.term rpc.candidateId
  | .requestVoteResult result => result.voteGranted = true → result.preVote = false →
      ∃ vote ∈ votes, voteStored completed result.term vote
  | .appendEntriesResult result => termStored completed result.term
  | .installSnapshotResult result => termStored completed result.term
  | _ => True

def dueAt (gen : Nat) (latch : Option Nat) : Prop := ∃ g, latch = some g ∧ g ≤ gen

/-! ## The invariant -/

structure Sealed (completed flying : List Persist) (votes : Option Int) (h : Hard) : Prop where
  inRange : h.term ≤ termMax
  gens : h.gen < 2 ^ 32 ∧ h.dirtyGen < 2 ^ 32
  flying : ∀ view ∈ flying, view.term = h.term ∧ (h.vote ≠ 0 → view.votedFor = h.vote)
  standing : h.candidate = true → h.vote = h.id
  voted : h.voteGen ≠ none → h.vote ≠ 0
  opened : h.dirtyGen ≤ h.gen → termStored completed h.term
  vote : dueAt h.gen h.voteGen → voteStored completed h.term h.vote
  request : dueAt h.gen h.requestGen → h.candidate = true → voteStored completed h.term h.id
  append : dueAt h.gen h.appendGen → termStored completed h.term
  reject : dueAt h.gen h.rejectGen → termStored completed h.term
  queue : ∀ message ∈ h.exposing, Exposed completed votes message
  same : ∀ vote ∈ votes, h.vote = vote ∨ h.voteGen = none

/-- What the permissions stand for. -/
structure Allowed (flying : List Persist) (votes : Option Int) (perm : Perm) (h : Hard) : Prop where
  id : 0 < h.id
  newTerm : perm.newTerm → flying = [] ∧ h.gen + 1 < 2 ^ 32 ∧ ¬ dueAt h.gen h.rejectGen
  stand : perm.stand → h.gen + 1 < 2 ^ 32 ∧ ¬ dueAt h.gen h.appendGen
  vote : perm.vote → flying = []
  latch : perm.latch → h.gen + 1 < 2 ^ 32 ∧ votes = none
  install : ¬ perm.install
  release : perm.release → votes.isSome = true

variable {completed flying : List Persist} {votes : Option Int} {perm : Perm} {h h' : Hard}
  {r r' : Node}

theorem dueAt_none (gen : Nat) : ¬ dueAt gen none := by
  rintro ⟨g, shape, -⟩
  cases shape

theorem dueAt_kept {gen : Nat} {old new : Option Nat} (kept : new = none ∨ new = old)
    (due : dueAt gen new) : dueAt gen old := by
  rcases kept with rfl | rfl
  · exact (dueAt_none gen due).elim
  · exact due

/-- Below the limit of the counter the next generation is not reached yet. -/
theorem nextGen_not_due (small : r.persistGen + 1 < 2 ^ 32) :
    ¬ dueAt r.persistGen (some r.nextGen) := by
  rintro ⟨g, shape, reached⟩
  cases shape
  simp only [Node.nextGen, wrap32, Nat.mod_eq_of_lt small] at reached
  omega

/-- A latch taken for the next generation is due at once only when the counter
wraps, and then everything older is due as well. -/
theorem opened_of_nextGen_due (sealedState : Sealed completed flying votes (hard r))
    (due : dueAt r.persistGen (some r.nextGen)) : termStored completed r.currentTerm := by
  by_cases small : r.persistGen + 1 < 2 ^ 32
  · exact (nextGen_not_due small due).elim
  · obtain ⟨gen, dirty⟩ := sealedState.gens
    refine sealedState.opened ?_
    simp only [hard] at gen dirty ⊢
    omega

theorem wrap32_lt (value : Nat) : wrap32 value < 2 ^ 32 := Nat.mod_lt _ (by decide)

theorem Sealed.quiet (before : Sealed completed flying votes (hard r)) (quiet : Quiet r r') :
    Sealed completed flying votes (hard r') := by
  obtain ⟨id, term, vote, candidate, gen, dirtyGen, voteGen, requestGen, appendGen, rejectGen,
    exposing, -⟩ := quiet
  refine ⟨?_, ?_, ?_, ?_, ?_, ?_, ?_, ?_, ?_, ?_, ?_, ?_⟩
  · rw [term]
    exact before.inRange
  · rw [gen, dirtyGen]
    exact before.gens
  · rw [term, vote]
    exact before.flying
  · intro standing
    rw [vote, id]
    exact before.standing (candidate standing)
  · intro latched
    rw [vote]
    rcases voteGen with none | same
    · exact (latched none).elim
    · exact before.voted (same ▸ latched)
  · rw [term, gen, dirtyGen]
    exact before.opened
  · rw [term, vote, gen]
    exact fun due => before.vote (dueAt_kept voteGen due)
  · rw [term, id, gen]
    exact fun due standing => before.request (dueAt_kept requestGen due) (candidate standing)
  · rw [term, gen]
    exact fun due => before.append (dueAt_kept appendGen due)
  · rw [term, gen]
    exact fun due => before.reject (dueAt_kept rejectGen due)
  · rw [exposing]
    exact before.queue
  · intro v member
    rw [vote]
    rcases voteGen with none | same
    · exact .inr none
    · rw [same]
      exact before.same v member

theorem Allowed.quiet (before : Allowed flying votes perm (hard r)) (quiet : Quiet r r') :
    Allowed flying votes perm (hard r') := by
  obtain ⟨id, -, -, -, gen, -, -, -, appendGen, rejectGen, -, -⟩ := quiet
  refine ⟨by rw [id]; exact before.id, ?_, ?_, before.vote, by rw [gen]; exact before.latch,
    before.install, before.release⟩
  · intro permitted
    obtain ⟨none, small, notDue⟩ := before.newTerm permitted
    rw [gen]
    exact ⟨none, small, fun due => notDue (dueAt_kept rejectGen due)⟩
  · intro permitted
    obtain ⟨small, notDue⟩ := before.stand permitted
    rw [gen]
    exact ⟨small, fun due => notDue (dueAt_kept appendGen due)⟩

theorem exposed_append {old : List PeerMessage} {message : PeerMessage}
    (before : ∀ other ∈ old, Exposed completed votes other) (new : Exposed completed votes message) :
    ∀ other ∈ old ++ [message], Exposed completed votes other := by
  intro other member
  rcases List.mem_append.mp member with inOld | isNew
  · exact before other inOld
  · rw [List.mem_singleton.mp isNew]
    exact new

/-- The moves of the hard state keep the gate shut until the disk has it. -/
theorem Sealed.move (before : Sealed completed flying votes (hard r))
    (allowed : Allowed flying votes perm (hard r)) (move : HardMove perm r r') :
    Sealed completed flying votes (hard r') := by
  cases move with
  | stepDown term newer same =>
    rw [same]
    have late : dueAt r.persistGen (some r.nextGen) → termStored completed term := by
      rcases newer with rfl | ⟨-, -, permitted⟩
      · exact opened_of_nextGen_due before
      · intro due
        exact (nextGen_not_due (allowed.newTerm permitted).2.1 due).elim
    refine ⟨?_, ⟨before.gens.1, wrap32_lt _⟩, ?_, (fun standing => nomatch standing),
      fun latched => (latched rfl).elim, fun opened => late ⟨_, rfl, opened⟩,
      fun due => (dueAt_none _ due).elim, fun due => (dueAt_none _ due).elim,
      fun due => (dueAt_none _ due).elim, ?_, before.queue, fun _ _ => .inr rfl⟩
    · rcases newer with rfl | ⟨-, bound, -⟩
      · exact before.inRange
      · exact bound
    · intro view member
      rcases newer with rfl | ⟨-, -, permitted⟩
      · exact ⟨(before.flying view member).1, fun voted => (voted rfl).elim⟩
      · rw [(allowed.newTerm permitted).1] at member
        cases member
    · intro due
      rcases newer with rfl | ⟨-, -, permitted⟩
      · exact before.reject due
      · exact ((allowed.newTerm permitted).2.2 due).elim
  | stand permitted settled inRange candidate requestGen fresh same =>
    obtain ⟨none, small, noReject⟩ := allowed.newTerm permitted
    rw [same]
    refine ⟨?_, ⟨before.gens.1, wrap32_lt _⟩, ?_, fun _ => rfl, fun latched => (latched rfl).elim,
      fun opened => (nextGen_not_due small ⟨_, rfl, opened⟩).elim,
      fun due => (dueAt_none _ due).elim, ?_, ?_, fun due => (noReject due).elim, before.queue,
      fun _ _ => .inr rfl⟩
    · simp only
      omega
    · intro view member
      rw [none] at member
      cases member
    · intro due standing
      simp only [fresh standing] at due
      exact (nextGen_not_due small due).elim
    · intro due
      rcases settled with empty | latched
      · simp only [empty] at due
        exact (dueAt_none _ due).elim
      · exact ((allowed.stand latched).2 due).elim
  | grant candidateId valid free first permitted same =>
    obtain ⟨small, noVotes⟩ := allowed.latch permitted
    rw [same]
    refine ⟨before.inRange, before.gens, ?_, ?_, fun _ => by simp only; omega, before.opened,
      fun due => (nextGen_not_due small due).elim, before.request, before.append, before.reject,
      before.queue, ?_⟩
    · intro view member
      rcases first with again | fresh
      · have carried := before.flying view member
        simp only [hard, again] at carried
        exact carried
      · rw [allowed.vote fresh] at member
        cases member
    · intro standing
      have self := before.standing standing
      have id := allowed.id
      simp only [hard] at self id ⊢
      omega
    · rw [noVotes]
      simp
  | latchAppend gen fresh same =>
    rw [same]
    refine ⟨before.inRange, before.gens, before.flying, before.standing, before.voted, before.opened,
      before.vote, before.request, ?_, before.reject, before.queue, before.same⟩
    intro due
    rcases fresh with rfl | old
    · exact opened_of_nextGen_due before due
    · exact before.append (old ▸ due)
  | latchReject same =>
    rw [same]
    exact ⟨before.inRange, before.gens, before.flying, before.standing, before.voted, before.opened,
      before.vote, before.request, before.append, fun due => opened_of_nextGen_due before due,
      before.queue, before.same⟩
  | report message reports opened appendGen rejectGen append reject same =>
    obtain ⟨result, shape, term, -⟩ := reports
    have stored : termStored completed r.currentTerm := by
      rcases opened with gate | due | due
      · exact before.opened gate
      · exact before.append due
      · exact before.reject due
    rw [same]
    refine ⟨before.inRange, before.gens, before.flying, before.standing, before.voted, before.opened,
      before.vote, before.request, fun due => before.append (dueAt_kept append due),
      fun due => before.reject (dueAt_kept reject due), exposed_append before.queue ?_, before.same⟩
    simp only [Exposed, shape, term]
    exact stored
  | install message opened shape same =>
    obtain ⟨last, shape⟩ := shape
    rw [same]
    refine ⟨before.inRange, before.gens, before.flying, before.standing, before.voted, before.opened,
      before.vote, before.request, before.append, before.reject, exposed_append before.queue ?_,
      before.same⟩
    simp only [Exposed, shape]
    exact before.opened (opened.resolve_right allowed.install)
  | releaseVote message permitted due shape same =>
    obtain ⟨vote, cast⟩ := Option.isSome_iff_exists.mp (allowed.release permitted)
    have stored := before.vote due
    have kept : r.votedFor = vote := by
      refine (before.same vote cast).resolve_right (fun none => ?_)
      obtain ⟨g, latched, -⟩ := due
      rw [none] at latched
      cases latched
    rw [same]
    refine ⟨before.inRange, before.gens, before.flying, before.standing,
      fun latched => (latched rfl).elim, before.opened, fun due => (dueAt_none _ due).elim,
      before.request, before.append, before.reject, exposed_append before.queue ?_,
      fun _ _ => .inr rfl⟩
    simp only [Exposed, shape]
    exact fun _ _ => ⟨vote, cast, kept ▸ stored⟩
  | releaseRequest messages permitted due standing shape same =>
    have stored := before.request due standing
    rw [same]
    refine ⟨before.inRange, before.gens, before.flying, before.standing, before.voted, before.opened,
      before.vote, fun due => (dueAt_none _ due).elim, before.append, before.reject, ?_, before.same⟩
    intro message member
    rcases List.mem_append.mp member with old | new
    · exact before.queue message old
    · simp only [Exposed, shape message new, voteRequest]
      exact fun _ => stored
  | beyond outOfRange _ _ _ _ =>
    have bound := before.inRange
    simp only [hard] at bound
    omega

/-- The permissions stand for the same after a move. -/
theorem Allowed.move (before : Allowed flying votes perm (hard r)) (inRange : r.currentTerm ≤ termMax)
    (move : HardMove perm r r') : Allowed flying votes perm (hard r') := by
  cases move with
  | stepDown _ _ same =>
    rw [same]
    exact ⟨before.id, before.newTerm,
      fun permitted => ⟨(before.stand permitted).1, dueAt_none _⟩, before.vote, before.latch,
      before.install, before.release⟩
  | stand _ _ _ _ _ _ same | grant _ _ _ _ _ same | install _ _ _ same | releaseVote _ _ _ _ same
  | releaseRequest _ _ _ _ _ same =>
    rw [same]
    exact ⟨before.id, before.newTerm, before.stand, before.vote, before.latch, before.install,
      before.release⟩
  | latchAppend gen fresh same =>
    rw [same]
    refine ⟨before.id, before.newTerm, fun permitted => ?_, before.vote, before.latch,
      before.install, before.release⟩
    obtain ⟨small, notDue⟩ := before.stand permitted
    refine ⟨small, fun due => ?_⟩
    rcases fresh with rfl | old
    · exact nextGen_not_due small due
    · exact notDue (old ▸ due)
  | latchReject same =>
    rw [same]
    refine ⟨before.id, fun permitted => ?_, before.stand, before.vote, before.latch, before.install,
      before.release⟩
    obtain ⟨none, small, -⟩ := before.newTerm permitted
    exact ⟨none, small, nextGen_not_due small⟩
  | report _ _ _ _ _ append reject same =>
    rw [same]
    refine ⟨before.id, fun permitted => ?_, fun permitted => ?_, before.vote, before.latch,
      before.install, before.release⟩
    · obtain ⟨none, small, notDue⟩ := before.newTerm permitted
      exact ⟨none, small, fun due => notDue (dueAt_kept reject due)⟩
    · obtain ⟨small, notDue⟩ := before.stand permitted
      exact ⟨small, fun due => notDue (dueAt_kept append due)⟩
  | beyond outOfRange _ _ _ _ => omega

/-- A whole call keeps the gate. -/
theorem Sealed.edits {cuts : Int → Prop} (before : Sealed completed flying votes (hard r))
    (allowed : Allowed flying votes perm (hard r)) (edits : Edits cuts perm r r') :
    Sealed completed flying votes (hard r') := by
  have both : Sealed completed flying votes (hard r') ∧ Allowed flying votes perm (hard r') := by
    induction edits with
    | refl => exact ⟨before, allowed⟩
    | tail _ edit ih =>
      obtain ⟨sealedState, still⟩ := ih
      cases edit with
      | log _ quiet => exact ⟨sealedState.quiet quiet, still.quiet quiet⟩
      | hard _ _ _ move =>
        exact ⟨sealedState.move still move, still.move sealedState.inRange move⟩
  exact both.1

/-! ## Steps of a run -/

def rejectDue (r : Node) : Bool :=
  r.deferredReject.pending && decide (r.deferredReject.gen ≤ r.persistGen)

def appendDue (r : Node) : Bool :=
  r.deferredAppend.response && decide (r.deferredAppend.gen ≤ r.persistGen)

/-- The node stands for election while an acknowledgement waits to be sent. -/
def standsDue (r : Node) : Op → Bool
  | .advance elapsedMs =>
    (advanceStands r elapsedMs).isSome && appendDue (advanceReplies (enterPhase r) elapsedMs)
  | op => standsLatched r op && appendDue r

/-- A rejection waits to be sent when a message brings a newer term;
`raft_advance` itself sends it first. -/
def rejectsLate (r : Node) : Op → Bool
  | .advance _ => false
  | op => movesTerm r op && rejectDue r

/-- The condition on a step. -/
structure Guarded (run : Run) (op : Op) : Prop where
  identified : 0 < run.node.cfg.id
  newTerm : movesTerm run.node op = true →
    run.inflight.isEmpty = true ∧ run.node.persistGen + 1 < 2 ^ 32
  reject : rejectsLate run.node op = false
  stand : standsDue run.node op = false
  vote : casts run.node op = true → run.inflight.isEmpty = true
  latch : grants run.node op = true → run.node.persistGen + 1 < 2 ^ 32
  install : answersInstall run.node op = true → run.node.termDirtyGen ≤ run.node.persistGen

instance (run : Run) (op : Op) : Decidable (Guarded run op) :=
  decidable_of_iff (0 < run.node.cfg.id ∧
      (movesTerm run.node op = true →
        run.inflight.isEmpty = true ∧ run.node.persistGen + 1 < 2 ^ 32) ∧
      rejectsLate run.node op = false ∧ standsDue run.node op = false ∧
      (casts run.node op = true → run.inflight.isEmpty = true) ∧
      (grants run.node op = true → run.node.persistGen + 1 < 2 ^ 32) ∧
      (answersInstall run.node op = true → run.node.termDirtyGen ≤ run.node.persistGen))
    ⟨fun ⟨a, b, c, d, e, f, g⟩ => ⟨a, b, c, d, e, f, g⟩,
      fun ⟨a, b, c, d, e, f, g⟩ => ⟨a, b, c, d, e, f, g⟩⟩

/-- The gate of a run. -/
def GateHolds (run : Run) : Prop :=
  Sealed run.completed (run.inflight.map Handed.view) none (hard run.node)

theorem dueAt_latched {isSet : Bool} {gen reached : Nat}
    (notDue : (isSet && decide (gen ≤ reached)) = false) : ¬ dueAt reached (latched isSet gen) := by
  rintro ⟨g, shape, low⟩
  cases isSet with
  | false => cases shape
  | true =>
    cases shape
    simp at notDue
    omega

theorem movesTerm_of_standsLatched {op : Op} (stands : standsLatched r op = true) :
    movesTerm r op = true := by
  cases op with
  | recvPeer msg =>
    simp only [standsLatched, Bool.and_eq_true] at stands
    simp [movesTerm, stands.1.1.1, stands.1.1.2]
  | advance elapsedMs =>
    simp only [standsLatched] at stands
    simp [movesTerm, Option.isSome_of_any stands]
  | recvClient _ | complete | applyComplete _ | snapshot | snapshotDataReady _
  | snapshotDataProvided _ _ _ | stop => cases stands

/-- What a call may do under the condition. -/
def callPerm (r : Node) (op : Op) : Perm :=
  { moves := True
    newTerm := movesTerm r op = true
    stand := standsLatched r op = true
    vote := casts r op = true
    latch := grants r op = true
    install := False
    release := False }

/-- A call that neither hands out nor completes a view. -/
theorem call_sealed {run : Run} {op : Op} (other : ∀ elapsedMs, op ≠ .advance elapsedMs)
    (holds : GateHolds run) (guarded : Guarded run op) :
    Sealed run.completed (run.inflight.map Handed.view) none (hard (call run.node op)) := by
  have moving : Moving (callPerm run.node op) := ⟨trivial⟩
  have permits : OpPermits (callPerm run.node op) run.node op :=
    ⟨id, id, id, id, fun answers => .inl (guarded.install answers)⟩
  have rejects : rejectsLate run.node op = (movesTerm run.node op && rejectDue run.node) := by
    unfold rejectsLate
    split
    · exact (other _ rfl).elim
    · rfl
  have stands : standsDue run.node op = (standsLatched run.node op && appendDue run.node) := by
    unfold standsDue
    split
    · exact (other _ rfl).elim
    · rfl
  have allowed : Allowed (run.inflight.map Handed.view) none (callPerm run.node op) (hard run.node) := by
    refine ⟨guarded.identified, fun moves => ?_, fun latched => ?_, fun cast => ?_,
      fun grant => ⟨guarded.latch grant, rfl⟩, fun installs => installs, fun releases => releases.elim⟩
    · obtain ⟨none, small⟩ := guarded.newTerm moves
      refine ⟨by simpa using none, small, ?_⟩
      have late := guarded.reject
      rw [rejects, show movesTerm run.node op = true from moves, Bool.true_and] at late
      exact dueAt_latched late
    · refine ⟨(guarded.newTerm (movesTerm_of_standsLatched latched)).2, ?_⟩
      have due := guarded.stand
      rw [stands, show standsLatched run.node op = true from latched, Bool.true_and] at due
      exact dueAt_latched due
    · simpa using guarded.vote cast
  exact holds.edits allowed (call_edits run.node op permits)

/-! ## raft_advance -/

theorem exposed_of_none {message : PeerMessage} (exposed : Exposed completed none message) :
    Exposed completed votes message := by
  unfold Exposed at exposed ⊢
  split at exposed
  · exact exposed
  · intro granted real
    obtain ⟨vote, member, -⟩ := exposed granted real
    cases member
  · exact exposed
  · exact exposed
  · trivial

/-- Within `raft_advance` vote results name the vote cast before it. -/
theorem Sealed.opening (before : Sealed completed flying none h) :
    Sealed completed flying (some h.vote) h := by
  refine ⟨before.inRange, before.gens, before.flying, before.standing, before.voted, before.opened,
    before.vote, before.request, before.append, before.reject,
    fun message member => exposed_of_none (before.queue message member), ?_⟩
  rintro vote ⟨⟩
  exact .inl rfl

/-- The caller has taken the queue. -/
theorem consumed_sealed (before : Sealed completed flying votes (hard r)) :
    Sealed completed flying none (hard (raftReadyConsumed r)) := by
  refine ⟨before.inRange, before.gens, before.flying, before.standing, before.voted, before.opened,
    before.vote, before.request, before.append, before.reject, ?_, ?_⟩
  · intro message member
    cases member
  · rintro vote ⟨⟩

theorem releaseReject_settled (r : Node) : rejectDue (releaseReject r) = false := by
  unfold releaseReject
  split
  · rfl
  · rename_i notDue
    simpa [rejectDue] using notDue

theorem releaseVoteRequest_reject (r : Node) : rejectDue (releaseVoteRequest r) = rejectDue r := by
  unfold releaseVoteRequest
  split
  · rfl
  · rfl

/-- `raft_advance` sends a rejection that is due before anything else moves. -/
theorem advanceReplies_settled (r : Node) (elapsedMs : Nat) :
    rejectDue (advanceReplies r elapsedMs) = false := by
  unfold advanceReplies
  rw [releaseVoteRequest_reject]
  exact releaseReject_settled _

/-- No newer term is taken before the deferred replies are out. -/
def repliesPerm : Perm :=
  { moves := True
    newTerm := False
    stand := False
    vote := False
    latch := False
    install := False
    release := True }

/-- After them the term may move. -/
def innerPerm (r : Node) (elapsedMs : Nat) : Perm :=
  { moves := True
    newTerm := movesTerm r (.advance elapsedMs) = true
    stand := (advanceStands r elapsedMs).isSome = true
    vote := False
    latch := False
    install := False
    release := True }

/-- Id and generation stay during a call. -/
theorem edits_gen {cuts : Int → Prop} (edits : Edits cuts perm r r') :
    (hard r').id = (hard r).id ∧ (hard r').gen = (hard r).gen := by
  induction edits with
  | refl => exact ⟨rfl, rfl⟩
  | tail _ edit ih =>
    obtain ⟨id, gen⟩ := ih
    cases edit with
    | log _ quiet => exact ⟨quiet.id.trans id, quiet.gen.trans gen⟩
    | hard _ _ _ move =>
      cases move with
      | stepDown _ _ same | stand _ _ _ _ _ _ same | grant _ _ _ _ _ same | latchAppend _ _ same
      | latchReject same | report _ _ _ _ _ _ _ same | install _ _ _ same | releaseVote _ _ _ _ same
      | releaseRequest _ _ _ _ _ same => exact ⟨by rw [same]; exact id, by rw [same]; exact gen⟩
      | beyond _ sameId sameGen _ _ => exact ⟨sameId.trans id, sameGen.trans gen⟩

theorem raftAdvance_sealed {run : Run} {elapsedMs : Nat} (holds : GateHolds run)
    (guarded : Guarded run (.advance elapsedMs)) :
    Sealed run.completed (run.inflight.map Handed.view) (some run.node.votedFor)
      (hard (raftAdvance run.node elapsedMs).1) := by
  have entered : Sealed run.completed (run.inflight.map Handed.view) (some run.node.votedFor)
      (hard (enterPhase run.node)) :=
    holds.opening.quiet (.of_calm (enterPhase_calm run.node))
  have allowed : Allowed (run.inflight.map Handed.view) (some run.node.votedFor) repliesPerm
      (hard (enterPhase run.node)) := by
    refine ⟨?_, fun p => p.elim, fun p => p.elim, fun p => p.elim, fun p => p.elim, id, fun _ => rfl⟩
    have same := (enterPhase_calm run.node).id
    simp only [hard, same]
    exact guarded.identified
  have moving : Moving repliesPerm := ⟨trivial⟩
  unfold raftAdvance
  dsimp only
  split
  · have edits : Edits (fun _ => True) repliesPerm (enterPhase run.node)
        (advanceDrain (enterPhase run.node) elapsedMs).1 := advanceDrain_edits ..
    exact entered.edits allowed edits
  · exact entered
  · have replied : Edits (fun _ => True) repliesPerm (enterPhase run.node)
        (advanceReplies (enterPhase run.node) elapsedMs) := advanceReplies_edits _ _ trivial
    obtain ⟨id, gen⟩ := edits_gen replied
    have sealedReplies := entered.edits allowed replied
    have movingInner : Moving (innerPerm run.node elapsedMs) := ⟨trivial⟩
    have inner : Edits (fun _ => True) (innerPerm run.node elapsedMs)
        (advanceReplies (enterPhase run.node) elapsedMs)
        (raftAdvanceInner (advanceReplies (enterPhase run.node) elapsedMs) elapsedMs) := by
      refine raftAdvanceInner_edits _ _ ?_ ?_
      · intro leader reached idx cut
        refine ⟨trivial, ?_⟩
        simp [innerPerm, movesTerm, advanceCut, reached, cut]
      · intro timed reached due
        have stands : advanceStands run.node elapsedMs = some timed := by
          simp [advanceStands, reached, due]
        exact ⟨by simp [innerPerm, movesTerm, stands], fun _ => by simp [innerPerm, stands]⟩
    have genSame : (hard (advanceReplies (enterPhase run.node) elapsedMs)).gen = run.node.persistGen :=
      gen.trans (enterPhase_calm run.node).persistGen
    have innerAllowed : Allowed (run.inflight.map Handed.view) (some run.node.votedFor)
        (innerPerm run.node elapsedMs) (hard (advanceReplies (enterPhase run.node) elapsedMs)) := by
      refine ⟨?_, fun moves => ?_, fun stands => ?_, fun p => p.elim, fun p => p.elim, fun p => p,
        fun _ => rfl⟩
      · rw [id]
        exact allowed.id
      · obtain ⟨none, small⟩ := guarded.newTerm moves
        refine ⟨by simpa using none, by rw [genSame]; exact small, ?_⟩
        exact dueAt_latched (advanceReplies_settled (enterPhase run.node) elapsedMs)
      · have moves : movesTerm run.node (.advance elapsedMs) = true := by
          simp only [innerPerm] at stands
          simp [movesTerm, stands]
        refine ⟨by rw [genSame]; exact (guarded.newTerm moves).2, dueAt_latched ?_⟩
        have due := guarded.stand
        simp only [standsDue, show (advanceStands run.node elapsedMs).isSome = true from stands,
          Bool.true_and] at due
        exact due
    exact (sealedReplies.edits innerAllowed inner).quiet (.of_hard rfl)

theorem raftAdvance_msgs (r : Node) (elapsedMs : Nat) (message : PeerMessage) :
    message ∈ (raftAdvance r elapsedMs).2.msgs → message ∈ (raftAdvance r elapsedMs).1.msgs := by
  have output : ∀ (node : Node) (stopped : Bool),
      (advanceOutput node stopped).2.msgs = (advanceOutput node stopped).1.msgs := fun _ _ => rfl
  unfold raftAdvance
  dsimp only
  split
  · unfold advanceDrain
    dsimp only
    split
    · rw [output]
      exact id
    · rw [output]
      exact id
  · intro member
    cases member
  · rw [output]
    exact id

/-- Other messages expose nothing. -/
theorem exposed_of_not_gated {message : PeerMessage} (plain : gated message = false) :
    Exposed completed votes message := by
  unfold gated at plain
  unfold Exposed
  split
  · rename_i rpc shape
    rw [shape] at plain
    intro real
    simp [real] at plain
  · rename_i result shape
    rw [shape] at plain
    intro granted real
    simp [granted, real] at plain
  · rename_i result shape
    rw [shape] at plain
    cases plain
  · rename_i result shape
    rw [shape] at plain
    cases plain
  · trivial

/-! ## Runs -/

/-- A view carries the hard state it was built from. -/
theorem persistView_hard (r : Node) :
    (persistView r).term = r.currentTerm ∧ (persistView r).votedFor = r.votedFor := by
  unfold persistView
  split
  · exact ⟨rfl, rfl⟩
  · exact ⟨rfl, rfl⟩

theorem drive_holds {run : Run} {elapsedMs : Nat} (holds : GateHolds run)
    (guarded : Guarded run (.advance elapsedMs)) : GateHolds (drive run elapsedMs) := by
  have taken := consumed_sealed (raftAdvance_sealed holds guarded)
  unfold GateHolds drive
  dsimp only
  cases handed : (raftAdvance run.node elapsedMs).2.persist with
  | none => simpa using taken
  | some view =>
    cases Frontier.raftAdvance_persist handed
    obtain ⟨term, vote⟩ := persistView_hard (raftAdvance run.node elapsedMs).1
    refine { taken with flying := ?_ }
    intro view member
    simp only [List.map_append, List.mem_append, Option.toList_some, List.map_cons, List.map_nil,
      List.mem_singleton] at member
    rcases member with old | rfl
    · exact taken.flying view old
    · exact ⟨term, fun _ => vote⟩

/-- Once a view that carries the hard state completes, nothing is held back for
a reason. -/
theorem Sealed.settle {view : Persist} {gen : Nat} (id : 0 < h.id)
    (before : Sealed completed (view :: flying) none h) (small : gen < 2 ^ 32) :
    Sealed (completed ++ [view]) flying none { h with gen } := by
  obtain ⟨term, vote⟩ := before.flying view List.mem_cons_self
  have stored : termStored (completed ++ [view]) h.term := .inr ⟨view, by simp, term.ge⟩
  have voteIs : h.vote ≠ 0 → voteStored (completed ++ [view]) h.term h.vote :=
    fun voted => ⟨view, by simp, term.ge, fun _ => vote voted⟩
  refine ⟨before.inRange, ⟨small, before.gens.2⟩,
    fun other member => before.flying other (List.mem_cons_of_mem _ member), before.standing,
    before.voted, fun _ => stored, ?_, ?_, fun _ => stored, fun _ => stored, ?_, before.same⟩
  · rintro ⟨g, latched, -⟩
    exact voteIs (before.voted (by simp only at latched; simp [latched]))
  · intro _ standing
    have self := before.standing standing
    rw [← self]
    exact voteIs (by rw [self]; exact id.ne')
  · intro message member
    have exposed := before.queue message member
    unfold Exposed at exposed ⊢
    split at exposed
    · exact fun real => voteStored_append _ (exposed real)
    · intro granted real
      obtain ⟨vote, cast, -⟩ := exposed granted real
      cases cast
    · exact termStored_append _ exposed
    · exact termStored_append _ exposed
    · trivial

theorem completeView_hard (r : Node) (view : Persist) :
    hard (completeView r view) = hard r ∧ r.completing = false ∨
      ∃ confirm, hard (completeView r view) = { hard r with
        gen := r.nextGen
        confirm } := by
  have reported : hard (raftPersistComplete r (viewDurable view)).1 = hard r ∧ r.completing = false ∨
      ∃ confirm, hard (raftPersistComplete r (viewDurable view)).1 = { hard r with
        gen := r.nextGen
        confirm } := by
    unfold raftPersistComplete
    split
    · rename_i refused
      exact .inl ⟨rfl, by simpa using refused⟩
    · obtain ⟨commit, confirmed, shape⟩ :=
        Frontier.commitIfLeader_shape (persistReported r (viewDurable view))
      refine .inr ⟨(persistReported r (viewDurable view)).durableConfirm, ?_⟩
      rw [shape]
      rfl
  have snapshot : ∀ node : Node, hard (raftSnapshotPersistComplete node (viewDurable view)).1 =
      hard node := by
    intro node
    unfold raftSnapshotPersistComplete
    split
    · rfl
    · split
      · split
        · rfl
        · rfl
      · rfl
  unfold completeView
  dsimp only
  split
  · rw [snapshot]
    exact reported
  · exact reported

theorem settleFirst_holds {run : Run} (holds : GateHolds run) (guarded : Guarded run .complete) :
    GateHolds (settleFirst run) := by
  unfold settleFirst
  split
  · exact holds
  · rename_i handed rest shape
    have before : Sealed run.completed (handed.view :: rest.map Handed.view) none (hard run.node) := by
      have all := holds
      simp only [GateHolds, shape, List.map_cons] at all
      exact all
    unfold GateHolds
    dsimp only
    rcases completeView_hard run.node handed.view with ⟨same, -⟩ | ⟨confirm, same⟩
    · rw [same]
      have settled := before.settle guarded.identified before.gens.1
      exact settled
    · rw [same]
      have settled := before.settle guarded.identified (wrap32_lt (run.node.persistGen + 1))
      exact ⟨settled.inRange, settled.gens, settled.flying, settled.standing, settled.voted,
        settled.opened, settled.vote, settled.request, settled.append, settled.reject, settled.queue,
        settled.same⟩

/-- A node without latches, queue and candidacy whose term is stored. -/
theorem sealed_of_idle (inRange : r.currentTerm ≤ termMax) (state : r.state ≠ .candidate)
    (gens : r.persistGen = 0 ∧ r.termDirtyGen = 0) (stored : termStored completed r.currentTerm)
    (latches : (hard r).voteGen = none ∧ (hard r).requestGen = none ∧ (hard r).appendGen = none ∧
      (hard r).rejectGen = none) (msgs : r.msgs = []) : Sealed completed [] none (hard r) := by
  obtain ⟨voteGen, requestGen, appendGen, rejectGen⟩ := latches
  refine ⟨inRange, ?_, by simp, ?_, fun latched => (latched voteGen).elim, fun _ => stored, ?_, ?_, ?_,
    ?_, ?_, by simp⟩
  · simp only [hard, gens.1, gens.2]
    decide
  · intro standing
    simp only [hard, beq_iff_eq] at standing
    exact (state standing).elim
  · rw [voteGen]
    exact fun due => (dueAt_none _ due).elim
  · rw [requestGen]
    exact fun due => (dueAt_none _ due).elim
  · rw [appendGen]
    exact fun due => (dueAt_none _ due).elim
  · rw [rejectGen]
    exact fun due => (dueAt_none _ due).elim
  · simp [hard, msgs]

theorem restoreVoters_hard {p : Persist} {restored : Node} (given : restoreVoters r p = some restored) :
    hard restored = hard r := by
  unfold restoreVoters at given
  split at given
  · cases given
    rfl
  · obtain ⟨old, -, rest⟩ := Option.bind_eq_some_iff.mp given
    obtain ⟨new, -, shape⟩ := Option.bind_eq_some_iff.mp rest
    cases shape
    rfl

theorem restoreLearners_hard {p : Persist} {restored : Node}
    (given : restoreLearners r p = some restored) : hard restored = hard r := by
  unfold restoreLearners at given
  split at given
  · cases given
    rfl
  · obtain ⟨learners, -, shape⟩ := Option.bind_eq_some_iff.mp given
    cases shape
    rfl

/-- The restored term is the one on disk. -/
theorem restoreNode_sealed {p : Persist} {restored : Node} {cfg : CreateConfig} {voters : List Int}
    (given : restoreNode (freshNode cfg voters) p = some restored) :
    Sealed [p] [] none (hard restored) := by
  unfold restoreNode at given
  split at given
  · cases given
  · rename_i valid
    obtain ⟨voting, votersGiven, withVoters⟩ := Option.bind_eq_some_iff.mp given
    obtain ⟨configured, learnersGiven, rest⟩ := Option.bind_eq_some_iff.mp withVoters
    obtain ⟨log, -, applied⟩ := Option.bind_eq_some_iff.mp rest
    have inRange : p.term ≤ termMax := by
      refine termMax_le ?_
      by_contra outOfRange
      simp [outOfRange] at valid
    have base : Sealed [p] [] none (hard { freshNode cfg voters with
        currentTerm := p.term
        votedFor := p.votedFor
        commitIndex := p.lastIncludedIndex
        lastApplied := p.lastIncludedIndex
        applyOffered := p.lastIncludedIndex
        log := ⟨[], p.lastIncludedIndex, p.lastIncludedTerm, (freshNode cfg voters).log.chunkSize⟩
        snapshot := ⟨p.lastIncludedIndex, p.lastIncludedTerm, p.snapshotSize, [], [], []⟩ }) :=
      sealed_of_idle inRange (by simp [freshNode]) ⟨rfl, rfl⟩ (.inr ⟨p, by simp, le_refl _⟩)
        ⟨rfl, rfl, rfl, rfl⟩ rfl
    have configuredHard := (restoreLearners_hard learnersGiven).trans (restoreVoters_hard votersGiven)
    rw [← configuredHard] at base
    have logged : Sealed [p] [] none (hard { configured with
        log := log
        durableIndex := raftLogLastIndex log
        durableConfirm := raftLogLastIndex log
        persistSyncedIndex := raftLogLastIndex log }) :=
      ⟨base.inRange, base.gens, base.flying, base.standing, base.voted, base.opened, base.vote,
        base.request, base.append, base.reject, base.queue, base.same⟩
    have calm := raftApplyConfigFromLog_calm { configured with
        log := log
        durableIndex := raftLogLastIndex log
        durableConfirm := raftLogLastIndex log
        persistSyncedIndex := raftLogLastIndex log }
    dsimp only at applied
    split at applied
    · rename_i inForce shape
      rw [shape] at calm
      cases applied
      exact logged.quiet (.of_calm (calm.trans (rebuildPeers_calm inForce)))
    · cases applied

theorem start_holds {cfg : CreateConfig} {run : Run} (started : Run.start cfg = some run) :
    GateHolds run := by
  obtain ⟨node, created, rfl⟩ := Option.map_eq_some_iff.mp started
  unfold raftCreate at created
  split at created
  · cases created
  · obtain ⟨voters, -, rest⟩ := Option.bind_eq_some_iff.mp created
    obtain ⟨restored, given, shape⟩ := Option.bind_eq_some_iff.mp rest
    cases shape
    have holds : Sealed cfg.restore.toList [] none (hard restored) := by
      unfold restoreFrom at given
      split at given
      · cases given
        exact sealed_of_idle (by simp [freshNode, termMax]) (by simp [freshNode]) ⟨rfl, rfl⟩
          (.inl (le_refl _)) ⟨rfl, rfl, rfl, rfl⟩ rfl
      · rename_i p persisted
        rw [persisted]
        exact restoreNode_sealed given
    exact holds

theorem step_holds (run : Run) (op : Op) (holds : GateHolds run) (guarded : Guarded run op) :
    GateHolds (run.step op) := by
  cases op with
  | advance elapsedMs => exact drive_holds holds guarded
  | complete => exact settleFirst_holds holds guarded
  | recvPeer _ | recvClient _ | applyComplete _ | snapshot | snapshotDataReady _
  | snapshotDataProvided _ _ _ | stop => exact call_sealed (by simp) holds guarded

/-- In a run that meets the condition, what `raft_advance` hands out exposes only
terms and votes that completed views carry. -/
theorem released_hard_state_is_stored {cfg : CreateConfig} {run : Run}
    (reached : Reaches Guarded cfg run) (elapsedMs : Nat)
    (guarded : Guarded run (.advance elapsedMs)) :
    ∀ message ∈ (raftAdvance run.node elapsedMs).2.msgs,
      Exposed run.completed (some run.node.votedFor) message := by
  intro message member
  have holds : GateHolds run := reached.invariant (fun _ => start_holds) step_holds
  have queued := raftAdvance_msgs run.node elapsedMs message member
  cases exposing : gated message with
  | false => exact exposed_of_not_gated exposing
  | true =>
    exact (raftAdvance_sealed holds guarded).queue message (List.mem_filter.mpr ⟨queued, exposing⟩)

/-! Three voters; this node is 1 and node 3 asks for its vote. -/

def voter : CreateConfig := ⟨1, [1, 2, 3], false, 10, 100, 200, 7, 1024, 4, none⟩

def ballot (term lastLogIndex lastLogTerm : Int) : Op :=
  .recvPeer ⟨3, 1, .requestVote ⟨term, lastLogIndex, lastLogTerm, 3, false⟩⟩

/-- The vote that `raft_advance` hands out. -/
def voteFor (term : Int) : PeerMessage := ⟨1, 3, .requestVoteResult ⟨term, true, false⟩⟩

theorem stored_vote_released : ∃ run, Reaches Guarded voter run ∧
    voteFor 1 ∈ (raftAdvance run.node 0).2.msgs ∧ voteStored run.completed 1 3 := by
  obtain ⟨run, reached, tested⟩ := Reaches.exists_of_through Guarded voter
    (fun run => decide (voteFor 1 ∈ (raftAdvance run.node 0).2.msgs) &&
      decide (run.node.votedFor = 3) && decide (Guarded run (.advance 0)))
    [.advance 0, ballot 1 0 0, .advance 0, .complete] (by decide +kernel)
  simp only [Bool.and_eq_true, decide_eq_true_eq] at tested
  obtain ⟨⟨released, vote⟩, guarded⟩ := tested
  have exposed := released_hard_state_is_stored reached 0 guarded (voteFor 1) released
  simp only [Exposed, voteFor, vote] at exposed
  obtain ⟨cast, isVote, stored⟩ := exposed trivial trivial
  cases isVote
  exact ⟨run, reached, released, stored⟩

/-- A view of term 1 that completes after the node has voted in term 5 lets the
vote of term 5 out. -/
theorem vote_released_before_stored : ∃ run, Reaches (fun _ _ => True) voter run ∧
    voteFor 5 ∈ (raftAdvance run.node 0).2.msgs ∧
    ∀ view ∈ run.completed, view.term ≤ 1 ∧ view.votedFor = 0 := by
  obtain ⟨run, reached, tested⟩ := Reaches.exists_of_through (fun _ _ => True) voter
    (fun run => decide (voteFor 5 ∈ (raftAdvance run.node 0).2.msgs) &&
      decide (∀ view ∈ run.completed, view.term ≤ 1 ∧ view.votedFor = 0))
    [.advance 0, .recvPeer ⟨2, 1, .appendEntries ⟨1, 0, 0, 0, 0, [], 2⟩⟩, .advance 0, ballot 5 0 0,
      .complete] (by decide +kernel)
  simp only [Bool.and_eq_true, decide_eq_true_eq] at tested
  exact ⟨run, reached, tested.1, tested.2⟩

end Kynovo.Raft.Gate
